import Tomato64.Core.Json

/-!
# Output of the JSON API

The API writes its reply piece by piece.  A global flag says whether a comma is
due before the next piece, and each writer sets it for the one that follows.
`Doc` is the document that a nest of such calls stands for.  Its calls write it
with its commas in place, whatever was written before, and a JSON reader gets
the document back exactly when its lists could be written as they stand.
-/

namespace Tomato64.ApiOutput

open Json List Split Text

/-- The `comma` flag and the text sent so far. -/
structure Out where
  comma : Bool
  body : Bytes

abbrev Step := Out → Out

def webPuts (text : Bytes) : Step := fun out =>
  { out with body := out.body ++ text }

def setComma (comma : Bool) : Step := fun out =>
  { out with comma := comma }

def jSep : Step := fun out =>
  setComma true (if out.comma then webPuts [44] out else out)

def jOpen (name : Option String) : Step := fun out =>
  match name with
  | some name =>
    setComma false
      (webPuts ((if out.comma then [44] else []) ++
        34 :: (bytes name ++ bytes "\":\x7b")) out)
  | none => setComma false (webPuts (bytes "\x7b") out)

def jClose : Step := fun out =>
  setComma true (webPuts (bytes "\x7d") out)

variable (name : String) (value : Bytes)

/-- What most writers do: a comma if due, the name and the value. -/
def jMember : Step := fun out =>
  webPuts (34 :: (bytes name ++ 34 :: 58 :: value)) (jSep out)

def escapeChar (char : Byte) : Bytes :=
  if char = 34 then bytes "\\\""
  else if char = 92 then bytes "\\\\"
  else if char = 10 then bytes "\\n"
  else if char = 13 then bytes "\\r"
  else if char = 9 then bytes "\\t"
  else if char < 32 then
    bytes "\\u00" ++ [hexChar (char.toNat / 16), hexChar (char.toNat % 16)]
  else [char]

def jStr : Step :=
  jMember name (34 :: (value.flatMap escapeChar ++ [34]))

/-- `printf` of a signed number. -/
def numText (value : ℤ) : Bytes :=
  if value < 0 then 45 :: decimal value.natAbs else decimal value.natAbs

/-- `%.2f` of a number that rounds to this many hundredths. -/
def realText (hundredths : ℕ) : Bytes :=
  decimal (hundredths / 100) ++ [46, digitChar (hundredths / 10 % 10),
    digitChar (hundredths % 10)]

def jNum (value : ℤ) : Step :=
  jMember name (numText value)

def jReal (hundredths : ℕ) : Step :=
  jMember name (realText hundredths)

def jBool (value : Bool) : Step :=
  jMember name (bytes (if value then "true" else "false"))

def jNull : Step :=
  jMember name (bytes "null")

/-- The `buf` of `j_list` holds 511 characters of the value. -/
def listSize : ℕ := 512

/-- The members of a list are written without any escapes. -/
def jToken (token : Bytes) : Step := fun out =>
  webPuts [34] (webPuts token (webPuts [34] (jSep out)))

def jArr : Step := fun out =>
  setComma false (jMember name [91] out)

def jArrEnd : Step := fun out =>
  setComma true (webPuts [93] out)

def jList : Step := fun out =>
  jArrEnd ((words 32 (value.take (listSize - 1))).foldl
    (fun out token => jToken token out) (jArr name out))

def jElem : Step := fun out =>
  setComma false (webPuts (bytes "\x7b")
    (if out.comma then webPuts [44] out else out))

def jElemEnd : Step :=
  jClose

/-- One call after the other. -/
def run (steps : List Step) (out : Out) : Out :=
  steps.foldl (fun out step => step out) out

theorem run_append (first second : List Step) (out : Out) :
    run (first ++ second) out = run second (run first out) :=
  foldl_append

/-! ## Documents -/

/-- A member's name, which needs no escapes. -/
structure Name where
  text : String
  plain : ∀ char ∈ bytes text, isUnescaped char = true

mutual

/-- What the calls between two commas write. -/
inductive Doc
  | text (value : Bytes)
  | number (value : ℤ)
  | real (hundredths : ℕ)
  | flag (value : Bool)
  | null
  | list (value : Bytes)
  | array (elements : Elements)
  | object (members : Members)

inductive Members
  | nil
  | cons (name : Name) (doc : Doc) (rest : Members)

inductive Elements
  | nil
  | cons (members : Members) (rest : Elements)

end

mutual

/-- The calls that write a document under a name. -/
def Doc.steps (name : String) : Doc → List Step
  | .text value => [jStr name value]
  | .number value => [jNum name value]
  | .real hundredths => [jReal name hundredths]
  | .flag value => [jBool name value]
  | .null => [jNull name]
  | .list value => [jList name value]
  | .array elements => jArr name :: (elements.steps ++ [jArrEnd])
  | .object members => jOpen (some name) :: (members.steps ++ [jClose])

def Members.steps : Members → List Step
  | .nil => []
  | .cons name doc rest => doc.steps name.text ++ rest.steps

def Elements.steps : Elements → List Step
  | .nil => []
  | .cons members rest => jElem :: (members.steps ++ jElemEnd :: rest.steps)

end

def quoted (text : Bytes) : Bytes :=
  34 :: (text ++ [34])

/-- Items between brackets, with commas between them. -/
def enclosed (opening closing : Byte) (texts : List Bytes) : Bytes :=
  opening :: ([44].intercalate texts ++ [closing])

mutual

/-- The text of a document. -/
def Doc.written : Doc → Bytes
  | .text value => quoted (value.flatMap escapeChar)
  | .number value => numText value
  | .real hundredths => realText hundredths
  | .flag value => bytes (if value then "true" else "false")
  | .null => bytes "null"
  | .list value =>
    enclosed 91 93 ((words 32 (value.take (listSize - 1))).map quoted)
  | .array elements => enclosed 91 93 elements.written
  | .object members => enclosed 123 125 members.written

def Members.written : Members → List Bytes
  | .nil => []
  | .cons name doc rest =>
    (34 :: (bytes name.text ++ 34 :: 58 :: doc.written)) :: rest.written

def Elements.written : Elements → List Bytes
  | .nil => []
  | .cons members rest => enclosed 123 125 members.written :: rest.written

end

mutual

/-- The document with the values that the writers were given.  A list stands
for all of its words. -/
def Doc.value : Doc → Value
  | .text value => .str value
  | .number value => .num (numText value)
  | .real hundredths => .num (realText hundredths)
  | .flag value => .bool value
  | .null => .null
  | .list value => .arr ((words 32 value).map .str)
  | .array elements => .arr elements.values
  | .object members => .obj members.values

def Members.values : Members → List (Bytes × Value)
  | .nil => []
  | .cons name doc rest => (bytes name.text, doc.value) :: rest.values

def Elements.values : Elements → List Value
  | .nil => []
  | .cons members rest => .obj members.values :: rest.values

end

/-- A list that the buffer does not shorten and that needs no escapes. -/
def ListClean : Prop :=
  words 32 (value.take (listSize - 1)) = words 32 value ∧
    ∀ word ∈ words 32 value, ∀ char ∈ word, isUnescaped char = true

mutual

/-- Every list of the document can be written as it stands. -/
def Doc.Clean : Doc → Prop
  | .list value => ListClean value
  | .array elements => elements.Clean
  | .object members => members.Clean
  | _ => True

def Members.Clean : Members → Prop
  | .nil => True
  | .cons _ doc rest => doc.Clean ∧ rest.Clean

def Elements.Clean : Elements → Prop
  | .nil => True
  | .cons members rest => members.Clean ∧ rest.Clean

end

/-! ## Documents from lists -/

def Members.ofList : List (Name × Doc) → Members
  | [] => .nil
  | (name, doc) :: rest => .cons name doc (ofList rest)

def Elements.ofList : List Members → Elements
  | [] => .nil
  | members :: rest => .cons members (ofList rest)

/-- The calls that write an element of an array. -/
def Members.element (members : Members) : List Step :=
  jElem :: (members.steps ++ [jElemEnd])

theorem Members.steps_ofList (members : List (Name × Doc)) :
    (ofList members).steps =
      members.flatMap fun member => member.2.steps member.1.text := by
  induction members with
  | nil => rfl
  | cons member members ih => rw [ofList, Members.steps, ih, flatMap_cons]

theorem Elements.steps_ofList (elements : List Members) :
    (ofList elements).steps = elements.flatMap Members.element := by
  induction elements with
  | nil => rfl
  | cons members elements ih =>
    rw [ofList, Elements.steps, ih, flatMap_cons, Members.element]
    simp

theorem Members.clean_ofList (members : List (Name × Doc)) :
    (ofList members).Clean ↔ ∀ member ∈ members, member.2.Clean := by
  induction members with
  | nil => simp [ofList, Members.Clean]
  | cons member members ih =>
    rw [ofList, Members.Clean, ih, forall_mem_cons]

theorem Elements.clean_ofList (elements : List Members) :
    (ofList elements).Clean ↔ ∀ members ∈ elements, members.Clean := by
  induction elements with
  | nil => simp [ofList, Elements.Clean]
  | cons members elements ih =>
    rw [ofList, Elements.Clean, ih, forall_mem_cons]

/-! ## Commas -/

/-- An item with the comma that is due before it. -/
def put (text : Bytes) : Step := fun out =>
  webPuts text (jSep out)

variable (texts : List Bytes)

/-- Items one after the other. -/
def putAll : Step := fun out =>
  texts.foldl (fun out text => put text out) out

theorem putAll_of_comma (body : Bytes) :
    putAll texts ⟨true, body⟩ =
      ⟨true, body ++ texts.flatMap fun text => 44 :: text⟩ := by
  induction texts generalizing body with
  | nil => simp [putAll]
  | cons text texts ih =>
    have hput : put text ⟨true, body⟩ = ⟨true, body ++ 44 :: text⟩ := by
      simp [put, jSep, webPuts, setComma]
    change putAll texts (put text ⟨true, body⟩) = _
    rw [hput, ih, flatMap_cons, append_assoc]

/-- Behind an opening bracket the commas stand between the items. -/
theorem putAll_first (body : Bytes) :
    (putAll texts ⟨false, body⟩).body = body ++ [44].intercalate texts := by
  cases texts with
  | nil => simp [putAll]
  | cons text texts =>
    have hput : put text ⟨false, body⟩ = ⟨true, body ++ text⟩ := by
      simp [put, jSep, webPuts, setComma]
    change (putAll texts (put text ⟨false, body⟩)).body = _
    rw [hput, putAll_of_comma, intercalate_cons, append_assoc]

/-- Brackets around items that were put one by one. -/
theorem put_enclosed (front : Bytes) (opening closing : Byte)
    (texts : List Bytes) (out : Out) :
    setComma true (webPuts [closing]
      (putAll texts (setComma false (put (front ++ [opening]) out)))) =
        put (front ++ enclosed opening closing texts) out := by
  have hbody := putAll_first texts (put (front ++ [opening]) out).body
  rw [setComma, webPuts, setComma, hbody]
  simp [put, jSep, webPuts, setComma, enclosed]

def memberText : Bytes :=
  34 :: (bytes name ++ 34 :: 58 :: value)

theorem memberText_append (front back : Bytes) :
    memberText name (front ++ back) = memberText name front ++ back := by
  simp [memberText]

theorem put_member_enclosed (opening closing : Byte)
    (texts : List Bytes) (out : Out) :
    setComma true (webPuts [closing]
      (putAll texts (setComma false (put (memberText name [opening]) out)))) =
        put (memberText name (enclosed opening closing texts)) out := by
  have hput := put_enclosed (memberText name []) opening closing texts out
  rwa [← memberText_append, ← memberText_append] at hput

theorem jToken_eq (token : Bytes) : jToken token = put (quoted token) := by
  funext out
  simp [jToken, put, quoted, webPuts]

theorem jList_eq (out : Out) :
    jList name value out = put (memberText name (Doc.list value).written) out := by
  have htokens : ∀ (tokens : List Bytes) (out : Out),
      tokens.foldl (fun out token => jToken token out) out =
        putAll (tokens.map quoted) out := by
    intro tokens out
    simp only [putAll, foldl_map, jToken_eq]
  rw [jList, htokens, Doc.written, ← put_member_enclosed]
  rfl

theorem jOpen_some (out : Out) :
    jOpen (some name) out =
      setComma false (put (memberText name [123]) out) := by
  cases hcomma : out.comma <;>
    simp [jOpen, put, jSep, webPuts, setComma, memberText, hcomma, bytes, ascii]

theorem jElem_eq (out : Out) : jElem out = setComma false (put [123] out) := by
  cases hcomma : out.comma <;>
    simp [jElem, put, jSep, webPuts, setComma, hcomma, bytes, ascii]

mutual

/-- The calls of a document write its text, after a comma if one is due. -/
theorem Doc.run_steps (doc : Doc) (name : String) (out : Out) :
    run (doc.steps name) out = put (memberText name doc.written) out := by
  cases doc with
  | text value => rfl
  | number value => rfl
  | real hundredths => rfl
  | flag value => rfl
  | null => rfl
  | list value => exact jList_eq name value out
  | array elements =>
    have hrun := elements.run_steps (jArr name out)
    change run (elements.steps ++ [jArrEnd]) (jArr name out) = _
    rw [run_append, hrun, Doc.written, ← put_member_enclosed]
    rfl
  | object members =>
    have hrun := members.run_steps (jOpen (some name) out)
    change run (members.steps ++ [jClose]) (jOpen (some name) out) = _
    rw [run_append, hrun, jOpen_some, Doc.written, ← put_member_enclosed]
    rfl

theorem Members.run_steps (members : Members) (out : Out) :
    run members.steps out = putAll members.written out := by
  cases members with
  | nil => rfl
  | cons name doc rest =>
    rw [Members.steps, run_append, doc.run_steps, rest.run_steps,
      Members.written]
    rfl

theorem Elements.run_steps (elements : Elements) (out : Out) :
    run elements.steps out = putAll elements.written out := by
  cases elements with
  | nil => rfl
  | cons members rest =>
    have hrun := members.run_steps (jElem out)
    have hput := put_enclosed [] 123 125 members.written out
    rw [Elements.steps]
    change run (members.steps ++ jElemEnd :: rest.steps) (jElem out) = _
    rw [run_append, hrun, jElem_eq]
    change run rest.steps (setComma true (webPuts [125] _)) = _
    rw [nil_append, nil_append] at hput
    rw [hput, rest.run_steps, Elements.written]
    rfl

end

/-- The calls of a whole reply. -/
def Members.reply (members : Members) : List Step :=
  jOpen none :: (members.steps ++ [jClose])

theorem run_reply (members : Members) :
    (run members.reply ⟨false, []⟩).body = (Doc.object members).written := by
  have hrun := members.run_steps ⟨false, [123]⟩
  change (run (members.steps ++ [jClose]) ⟨false, [123]⟩).body = _
  rw [run_append, hrun]
  change (putAll members.written ⟨false, [123]⟩).body ++ [125] = _
  rw [putAll_first, Doc.written]
  rfl

/-! ## Reading a document back -/

theorem takeEscape_control {char : Byte} (hchar : char < 32) (rest : Bytes) :
    takeEscape (bytes "u00" ++ [hexChar (char.toNat / 16),
      hexChar (char.toNat % 16)] ++ rest) = some ([char], rest) := by
  have hall : ∀ code < 32,
      (∀ digit ∈ [48, 48, hexChar (code / 16), hexChar (code % 16)],
        Scan.isDigitOf 16 digit = true) ∧
      utf8 (Scan.valueOf 16 [48, 48, hexChar (code / 16),
        hexChar (code % 16)]) = [UInt8.ofNat code] := by
    decide
  obtain ⟨hdigits, hvalue⟩ := hall char.toNat hchar
  rw [UInt8.ofNat_toNat] at hvalue
  have hescape := takeEscape_hex rfl hdigits rest
  rwa [hvalue] at hescape

theorem parseString_escapeChar (char : Byte) (rest : Bytes) :
    parseString (escapeChar char ++ rest) =
      (parseString rest).map fun parsed => (char :: parsed.1, parsed.2) := by
  rw [escapeChar]
  split
  · next hchar =>
    rw [hchar]
    exact parseString_escape (takeEscape_simple (by decide) rfl rest)
  split
  · next hchar =>
    rw [hchar]
    exact parseString_escape (takeEscape_simple (by decide) rfl rest)
  split
  · next hchar =>
    rw [hchar]
    exact parseString_escape (takeEscape_simple (by decide) rfl rest)
  split
  · next hchar =>
    rw [hchar]
    exact parseString_escape (takeEscape_simple (by decide) rfl rest)
  split
  · next hchar =>
    rw [hchar]
    exact parseString_escape (takeEscape_simple (by decide) rfl rest)
  split
  · next hchar => exact parseString_escape (takeEscape_control hchar rest)
  · next hquote hbackslash _ _ _ hlarge =>
    refine parseString_unescaped ?_ rest
    simp [isUnescaped, hquote, hbackslash, UInt8.not_lt.1 hlarge]

/-- Escaped text reads back as it was. -/
theorem parseString_escaped (text rest : Bytes) :
    parseString (text.flatMap escapeChar ++ 34 :: rest) =
      some (text, rest) := by
  induction text with
  | nil => exact parseString_quote rest
  | cons char text ih =>
    rw [flatMap_cons, append_assoc, parseString_escapeChar, ih]
    rfl

theorem exists_decimal_digits (number : ℕ) :
    ∃ first others, decimal number = first :: others ∧
      (first = 48 → others = []) := by
  obtain ⟨first, others, hdecimal, hfirst⟩ := exists_decimal_eq_cons number
  refine ⟨first, others, hdecimal, fun hzero => ?_⟩
  rw [hfirst hzero, decimal, if_pos (by decide), List.cons.injEq] at hdecimal
  exact hdecimal.2.symm

theorem exists_isNumberText_numText (value : ℤ) :
    ∃ sign, IsNumberText (numText value) sign (decimal value.natAbs) [] := by
  have hdigits := isDigit_of_mem_decimal value.natAbs
  have hfirst := exists_decimal_digits value.natAbs
  by_cases hneg : value < 0
  · exact ⟨[45], by simp [numText, hneg], .inr rfl, hdigits, hfirst, .inl rfl⟩
  · exact ⟨[], by simp [numText, hneg], .inl rfl, hdigits, hfirst, .inl rfl⟩

theorem isNumberText_realText (hundredths : ℕ) :
    IsNumberText (realText hundredths) [] (decimal (hundredths / 100))
      [46, digitChar (hundredths / 10 % 10), digitChar (hundredths % 10)] := by
  refine ⟨rfl, .inl rfl, isDigit_of_mem_decimal _, exists_decimal_digits _,
    .inr ⟨_, rfl, by simp, ?_⟩⟩
  simp only [forall_mem_cons]
  exact ⟨isDigit_digitChar (Nat.mod_lt _ (by decide)),
    isDigit_digitChar (Nat.mod_lt _ (by decide)), by simp⟩

section Reading

variable {fuel : ℕ}

theorem reads_word {value : Bytes} {pair : Bytes × Bytes}
    (hpair : pair ∈ (words 32 (value.take (listSize - 1))).zip
      (words 32 value)) :
    Reads (parseValue (fuel + 1)) (quoted pair.1) (.str pair.2)
      (pair.1 = pair.2 ∧ ∀ char ∈ pair.1, isUnescaped char = true) := by
  have hfront := prefix_of_mem_zip_wordsFrom 32 []
    (value.take (listSize - 1)) (value.drop (listSize - 1))
  rw [take_append_drop] at hfront
  exact reads_raw (hfront pair hpair)

/-- The words of a list are read back exactly when it is clean. -/
theorem forall₂_word_iff :
    Forall₂ (Whole (parseValue (fuel + 1)))
      ((words 32 (value.take (listSize - 1))).map quoted)
      ((words 32 value).map .str) ↔ ListClean value := by
  rw [forall₂_map_left_iff, forall₂_map_right_iff]
  calc Forall₂ (fun raw word =>
          Whole (parseValue (fuel + 1)) (quoted raw) (.str word))
        (words 32 (value.take (listSize - 1))) (words 32 value)
      ↔ Forall₂ (fun raw word =>
          (∀ char ∈ raw, isUnescaped char = true) ∧ raw = word)
        (words 32 (value.take (listSize - 1))) (words 32 value) := by
        rw [forall₂_iff_zip, forall₂_iff_zip]
        refine and_congr_right fun _ => ⟨fun hall raw word hpair => ?_,
          fun hall raw word hpair => ?_⟩
        · exact ((reads_word hpair).whole_iff.1 (hall hpair)).symm
        · exact (reads_word hpair).whole_iff.2 (hall hpair).symm
    _ ↔ ListClean value := by
        rw [forall₂_and_left, forall₂_eq_eq_eq, ListClean, and_comm]
        refine and_congr_right fun hsame => ?_
        rw [hsame]

theorem startsItem_cons {char : Byte} {more : Bytes}
    (hchar : char = 34 ∨ char = 123) : StartsItem (char :: more) := by
  rcases hchar with rfl | rfl
  · exact ⟨34, more, rfl, by decide, by decide, by decide⟩
  · exact ⟨123, more, rfl, by decide, by decide, by decide⟩

theorem startsItem_ne_nil {text : Bytes} (htext : StartsItem text) :
    text ≠ [] := by
  obtain ⟨char, more, rfl, _⟩ := htext
  simp

/-- There is fuel for the items between brackets, and for each of them. -/
theorem fuel_of_enclosed {opening closing : Byte} {texts : List Bytes}
    (hstarts : ∀ text ∈ texts, StartsItem text)
    (hfuel : (enclosed opening closing texts).length ≤ fuel + 1) :
    texts.length ≤ fuel ∧ ∀ text ∈ texts, text.length ≤ fuel := by
  have hcount := count_le_length_intercalate (44 : Byte)
    fun text htext => startsItem_ne_nil (hstarts text htext)
  simp only [enclosed, length_cons, length_append, length_nil] at hfuel
  refine ⟨by omega, fun text htext => ?_⟩
  have hlength := length_le_intercalate (44 : Byte) htext
  omega

theorem Members.startsItem (members : Members) :
    ∀ text ∈ members.written, StartsItem text := by
  cases members with
  | nil => simp [Members.written]
  | cons name doc rest =>
    rw [Members.written, forall_mem_cons]
    exact ⟨startsItem_cons (.inl rfl), rest.startsItem⟩

theorem Elements.startsItem (elements : Elements) :
    ∀ text ∈ elements.written, StartsItem text := by
  cases elements with
  | nil => simp [Elements.written]
  | cons members rest =>
    rw [Elements.written, forall_mem_cons]
    exact ⟨startsItem_cons (.inr rfl), rest.startsItem⟩

/-- Items that are read one by one, and what it takes to read them all. -/
structure ReadsEach {α : Type*} (item : Bytes → Option (α × Bytes))
    (texts : List Bytes) (values : List α) (good : Prop) : Prop where
  reads : ∀ pair ∈ texts.zip values,
    Reads item pair.1 pair.2 (Whole item pair.1 pair.2)
  iff_good : Forall₂ (Whole item) texts values ↔ good

theorem readsEach_nil {α : Type*} (item : Bytes → Option (α × Bytes)) :
    ReadsEach item [] [] True :=
  ⟨by simp, by simp⟩

theorem readsEach_cons {α : Type*} {item : Bytes → Option (α × Bytes)}
    {text : Bytes} {texts : List Bytes} {value : α} {values : List α}
    {first others : Prop} (hreads : Reads item text value first)
    (hrest : ReadsEach item texts values others) :
    ReadsEach item (text :: texts) (value :: values) (first ∧ others) := by
  refine ⟨?_, ?_⟩
  · rw [zip_cons_cons, forall_mem_cons]
    exact ⟨hreads.whole, hrest.reads⟩
  · rw [forall₂_cons, hreads.whole_iff, hrest.iff_good]

theorem reads_object {members : Members}
    (hfuel : (enclosed 123 125 members.written).length ≤ fuel + 1)
    (hmembers : ReadsEach (parseMember (parseValue fuel)) members.written
      members.values members.Clean) :
    Reads (parseValue (fuel + 1)) (enclosed 123 125 members.written)
      (.obj members.values) members.Clean := by
  have hcount := (fuel_of_enclosed members.startsItem hfuel).1
  have hreads := reads_obj hcount members.startsItem hmembers.reads
  rwa [hmembers.iff_good] at hreads

theorem reads_list {value : Bytes}
    (hfuel : (Doc.list value).written.length ≤ fuel + 1) :
    Reads (parseValue (fuel + 1)) (Doc.list value).written
      (Doc.list value).value (ListClean value) := by
  have hstarts : ∀ text ∈ (words 32 (value.take (listSize - 1))).map quoted,
      StartsItem text := by
    rw [forall_mem_map]
    exact fun word _ => startsItem_cons (.inl rfl)
  obtain ⟨fuel, rfl⟩ : ∃ less, fuel = less + 1 :=
    ⟨fuel - 1, by simp [Doc.written, enclosed] at hfuel; omega⟩
  have hcount := (fuel_of_enclosed hstarts hfuel).1
  have hwords : ∀ pair ∈ ((words 32 (value.take (listSize - 1))).map
      quoted).zip ((words 32 value).map Value.str),
      Reads (parseValue (fuel + 1)) pair.1 pair.2
        (Whole (parseValue (fuel + 1)) pair.1 pair.2) := by
    rw [zip_map, forall_mem_map]
    exact fun pair hpair => (reads_word hpair).whole
  have hreads := reads_arr hcount hstarts hwords
  rwa [forall₂_word_iff] at hreads

mutual

/-- A document is read back exactly when its lists are clean. -/
theorem Doc.reads (doc : Doc) {fuel : ℕ}
    (hfuel : doc.written.length ≤ fuel + 1) :
    Reads (parseValue (fuel + 1)) doc.written doc.value doc.Clean := by
  cases doc with
  | text value => exact reads_str fun rest => parseString_escaped value rest
  | number value =>
    obtain ⟨sign, hnumber⟩ := exists_isNumberText_numText value
    exact reads_num hnumber
  | real hundredths => exact reads_num (isNumberText_realText hundredths)
  | flag value => exact reads_bool value
  | null => exact reads_null
  | list value => exact reads_list hfuel
  | array elements =>
    obtain ⟨hcount, hlengths⟩ := fuel_of_enclosed elements.startsItem hfuel
    have helements := elements.reads hlengths
    have hreads := reads_arr hcount elements.startsItem helements.reads
    rwa [helements.iff_good] at hreads
  | object members =>
    obtain ⟨hcount, hlengths⟩ := fuel_of_enclosed members.startsItem hfuel
    exact reads_object hfuel (members.reads hlengths)

theorem Members.reads (members : Members) {fuel : ℕ}
    (hfuel : ∀ text ∈ members.written, text.length ≤ fuel) :
    ReadsEach (parseMember (parseValue fuel)) members.written members.values
      members.Clean := by
  cases members with
  | nil => exact readsEach_nil _
  | cons name doc rest =>
    rw [Members.written, forall_mem_cons] at hfuel
    simp only [length_cons, length_append] at hfuel
    obtain ⟨fuel, rfl⟩ : ∃ less, fuel = less + 1 := ⟨fuel - 1, by omega⟩
    exact readsEach_cons (reads_member name.plain (doc.reads (by omega)))
      (rest.reads hfuel.2)

theorem Elements.reads (elements : Elements) {fuel : ℕ}
    (hfuel : ∀ text ∈ elements.written, text.length ≤ fuel) :
    ReadsEach (parseValue fuel) elements.written elements.values
      elements.Clean := by
  cases elements with
  | nil => exact readsEach_nil _
  | cons members rest =>
    rw [Elements.written, forall_mem_cons] at hfuel
    obtain ⟨fuel, rfl⟩ : ∃ less, fuel = less + 1 :=
      ⟨fuel - 1, by simp [enclosed] at hfuel; omega⟩
    obtain ⟨_, hlengths⟩ := fuel_of_enclosed members.startsItem hfuel.1
    exact readsEach_cons (reads_object hfuel.1 (members.reads hlengths))
      (rest.reads hfuel.2)

end

/-- A reply is a JSON document with the values it was given exactly when its
lists are clean. -/
theorem parseDocument_reply_iff (members : Members) :
    parseDocument (run members.reply ⟨false, []⟩).body =
        some (.obj members.values) ↔ members.Clean := by
  have hpos : 0 < (Doc.object members).written.length := by
    simp [Doc.written, enclosed]
  obtain ⟨fuel, hfuel⟩ := Nat.exists_eq_add_of_lt hpos
  rw [Nat.zero_add] at hfuel
  have hreads := (Doc.object members).reads hfuel.le
  rw [run_reply]
  exact parseDocument_iff (hfuel ▸ hreads)

end Reading

end Tomato64.ApiOutput
