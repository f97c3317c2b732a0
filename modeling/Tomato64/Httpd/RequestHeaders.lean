import Tomato64.Core.Run
import Tomato64.Core.Stdio
import Tomato64.Httpd.Cgi
import Mathlib.Data.List.DropRight

/-!
# Reading a request

`handle_request` reads the request line and the header lines into one buffer
of 10000 bytes.  The parts it needs later stay in the buffer, and the next line
is read behind them; other lines are overwritten.

The stream delivers a finite number of bytes and then ends.  A read that finds
the end returns no line.
-/

namespace Tomato64.RequestHeaders

open List StateTransition
open Cgi Run Split Stdio Text

/-- `sizeof(line)`. -/
def lineSize : ℕ := 10000

/-! ## The request line -/

variable (text : Bytes)

/-- `strsep(&text, " ")`: the token and, if there is a space, what follows. -/
def strsepSpace : Bytes × Option Bytes :=
  match splitFirst 32 text with
  | some (token, rest) => (token, some rest)
  | none => (text, none)

def skipSpaces : Bytes :=
  text.dropWhile (· = 32)

/-- The request line as the handlers see it. -/
structure RequestLine where
  post : Bool
  file : Bytes
  query : Option Bytes
  deriving DecidableEq, Repr

/-- An answer that ends the request. -/
inductive Refusal
  | badRequest
  | notImplemented
  deriving DecidableEq, Repr

/-- The path and the query behind the first `?`. -/
def cutQuery (path : Bytes) : Bytes × Option Bytes :=
  match splitFirst 63 path with
  | some (file, query) => (file, some query)
  | none => (path, none)

/-- The path with its query as they are tested, after `webcgi_init`. -/
def testedPath (cut : Bytes × Option Bytes) : Bytes :=
  match cut with
  | (file, none) => 47 :: file
  | (file, some query) => 47 :: (file ++ 0 :: webcgiOverwrite query)

/-- The page that a path without the leading slash stands for.  `whole` is the
path with its query, since `len` is taken before the query is cut off. -/
def resolveFile (whole file : Bytes) : Bytes :=
  if file = [] ∨ whole.getLast? = some 47 ∨ file = bytes "index.asp" then
    bytes "status-overview.asp"
  else if file = bytes "ext/" ∨ file = bytes "ext" then
    bytes "ext/index.asp"
  else file

/-- The checks that keep a path below the document root. -/
def leavesRoot (whole file : Bytes) : Bool :=
  file.head? = some 47 ||
    (bytes "..").isPrefixOf file ||
    (splitAtKey (bytes "/../") file).isSome ||
    whole.drop (whole.length - 3) = bytes "/.."

/-- The first line: the parsed line and the offset at which the header lines
are read, just behind the protocol. -/
def parseRequestLine : Except Refusal (RequestLine × ℕ) :=
  match strsepSpace text with
  | (_, none) => .error .badRequest
  | (method, some behindMethod) =>
    match strsepSpace (skipSpaces behindMethod) with
    | (_, none) => .error .badRequest
    | (path, some behindPath) =>
      let protocol := skipSpaces behindPath
      let post := equalNoCase method (bytes "post")
      if !equalNoCase method (bytes "get") && !post then
        .error .notImplemented
      else if path.head? ≠ some 47 then .error .badRequest
      else
        let cut := cutQuery (path.drop 1)
        if leavesRoot (testedPath cut) cut.1 then .error .badRequest
        else
          .ok (⟨post, resolveFile (testedPath cut) cut.1, cut.2⟩,
            text.length - protocol.length +
              (strsepSpace protocol).1.length + 1)

/-! ## The header lines -/

/-- The pointers into the buffer that the loop collects, and the length of the
body. -/
structure Headers where
  authorization : Option Bytes
  useragent : Option Bytes
  cookie : Option Bytes
  boundary : Option Bytes
  upgradeHeader : Option Bytes
  connectionHeader : Option Bytes
  wsKeyHeader : Option Bytes
  cl : ℕ
  deriving DecidableEq, Repr

def noHeaders : Headers :=
  ⟨none, none, none, none, none, none, none, 0⟩

def isBlank (char : Byte) : Bool :=
  char = 32 || char = 9

/-- The text behind the name of a header and the blanks that follow it. -/
def fieldValue (name text : Bytes) : Bytes :=
  (text.drop name.length).dropWhile isBlank

/-- `STRIP_TRAILING_WS`: the first character stays in any case. -/
def stripTrailing : Bytes → Bytes
  | [] => []
  | first :: rest =>
    first :: rest.rdropWhile fun char =>
      isBlank char || char = 13 || char = 10

/-- The number in a `Content-Length` header, unless it is malformed or does
not fit an `int`. -/
def parseContentLength (value : Bytes) : Option ℕ :=
  let number := digitsValue (value.takeWhile isDigit)
  let rest := (value.dropWhile isDigit).dropWhile isBlank
  if !(value.head?.any isDigit) then none
  else if number > 2147483647 then none
  else if rest.head?.all fun char => char = 13 || char = 10 then some number
  else none

/-- A header that is kept to the end of its line: the bytes kept and its
value. -/
def keepLine (name text : Bytes) : ℕ × Bytes :=
  (text.length + 1, fieldValue name text)

/-- A header that is kept without the white space at its end. -/
def keepStripped (name text : Bytes) : ℕ × Bytes :=
  let value := stripTrailing (fieldValue name text)
  (text.length - (fieldValue name text).length + value.length + 1, value)

/-- The boundary of a multipart body: the bytes kept and its value. -/
def findBoundary : Option (ℕ × Bytes) :=
  (splitAtKey (bytes "boundary=") text).map fun cut =>
    let value := cut.2.takeWhile fun char => char ≠ 13 && char ≠ 10
    (cut.1.length + (bytes "boundary=").length + value.length + 1, value)

/-- What the body of the loop does with the line at `cur`: how far `cur` moves
and the headers found so far, or the answer 400. -/
def headerLine (headers : Headers) :
    Except Refusal (ℕ × Headers) :=
  if startsNoCase (bytes "Authorization:") text then
    let (kept, value) := keepLine (bytes "Authorization:") text
    .ok (kept, { headers with authorization := some value })
  else if startsNoCase (bytes "User-Agent:") text then
    let (kept, value) := keepLine (bytes "User-Agent:") text
    .ok (kept, { headers with useragent := some value })
  else if startsNoCase (bytes "Cookie:") text then
    let (kept, value) := keepLine (bytes "Cookie:") text
    .ok (kept, { headers with cookie := some value })
  else if startsNoCase (bytes "Content-Length:") text then
    match parseContentLength (fieldValue (bytes "Content-Length:") text) with
    | none => .error .badRequest
    | some cl => .ok (0, { headers with cl := cl })
  else if startsNoCase (bytes "Content-Type:") text &&
      (findBoundary text).isSome then
    match findBoundary text with
    | none => .ok (0, headers)
    | some (kept, value) => .ok (kept, { headers with boundary := some value })
  else if startsNoCase (bytes "Upgrade:") text then
    let (kept, value) := keepStripped (bytes "Upgrade:") text
    .ok (kept, { headers with upgradeHeader := some value })
  else if startsNoCase (bytes "Connection:") text then
    let (kept, value) := keepStripped (bytes "Connection:") text
    .ok (kept, { headers with connectionHeader := some value })
  else if startsNoCase (bytes "Sec-WebSocket-Key:") text then
    let (kept, value) := keepStripped (bytes "Sec-WebSocket-Key:") text
    .ok (kept, { headers with wsKeyHeader := some value })
  else .ok (0, headers)

/-- The state of the loop: the offset `cur - line`, the bytes the client has
yet to deliver, and the headers found so far. -/
structure HeaderLoop where
  cur : ℕ
  input : Bytes
  headers : Headers
  deriving DecidableEq, Repr

variable (state : HeaderLoop)

/-- `line + sizeof(line) - cur`. -/
def HeaderLoop.space : ℤ :=
  lineSize - state.cur

inductive Iteration
  | next (state : HeaderLoop)
  | finished (headers : Headers)
  | refused (refusal : Refusal)

def isEmptyLine : Bool :=
  text = [10] || text = [13, 10]

def iterate : Iteration :=
  match fgets state.space state.input with
  | none => .finished state.headers
  | some (line, input) =>
    if isEmptyLine (cstr line) then .finished state.headers
    else
      match headerLine (cstr line) state.headers with
      | .error refusal => .refused refusal
      | .ok (kept, headers) => .next ⟨state.cur + kept, input, headers⟩

/-- The loop as a partial step function. -/
def headerStep : Option HeaderLoop :=
  match iterate state with
  | .next state => some state
  | _ => none

/-- The state in which the loop starts, when the request line is accepted. -/
def startHeaders (input : Bytes) : Option HeaderLoop :=
  match fgets lineSize input with
  | none => none
  | some (line, input) =>
    match parseRequestLine (cstr line) with
    | .error _ => none
    | .ok (_, cur) => some ⟨cur, input, noHeaders⟩

/-! ## What an iteration keeps -/

theorem length_stripTrailing_le (value : Bytes) :
    (stripTrailing value).length ≤ value.length := by
  cases value with
  | nil => rfl
  | cons first rest =>
    simp only [stripTrailing, length_cons, Nat.add_le_add_iff_right]
    exact ( rdropWhile_prefix _ _).length_le

theorem length_fieldValue_le (name text : Bytes) :
    (fieldValue name text).length ≤ text.length := by
  have hdrop := (dropWhile_suffix isBlank (l := text.drop name.length))
  have hlength := hdrop.length_le
  rw [length_drop] at hlength
  rw [fieldValue]
  omega

theorem keepStripped_le (name text : Bytes) :
    (keepStripped name text).1 ≤ text.length + 1 := by
  have hstrip := length_stripTrailing_le (fieldValue name text)
  have hvalue := length_fieldValue_le name text
  simp only [keepStripped]
  omega

theorem findBoundary_le {text value : Bytes} {kept : ℕ}
    (hfind : findBoundary text = some (kept, value)) :
    kept ≤ text.length + 1 := by
  rw [findBoundary, Option.map_eq_some_iff] at hfind
  obtain ⟨⟨before, behind⟩, hcut, hsame⟩ := hfind
  have hlength := length_of_splitAtKey hcut
  rw [Prod.mk.injEq] at hsame
  obtain ⟨rfl, rfl⟩ := hsame
  have htake := ( takeWhile_prefix
    (fun char : Byte => char ≠ 13 && char ≠ 10) (l := behind)).length_le
  simp only
  omega

/-- No header keeps more than its line and the NUL behind it. -/
theorem headerLine_le {text : Bytes} {headers found : Headers} {kept : ℕ}
    (hline : headerLine text headers = .ok (kept, found)) :
    kept ≤ text.length + 1 := by
  rw [headerLine] at hline
  split at hline
  · cases hline
    exact le_refl _
  split at hline
  · cases hline
    exact le_refl _
  split at hline
  · cases hline
    exact le_refl _
  split at hline
  · split at hline <;> cases hline
    exact Nat.zero_le _
  split at hline
  · split at hline
    · cases hline
      exact Nat.zero_le _
    · next hfind =>
      cases hline
      exact findBoundary_le hfind
  split at hline
  · cases hline
    exact keepStripped_le _ _
  split at hline
  · cases hline
    exact keepStripped_le _ _
  split at hline
  · cases hline
    exact keepStripped_le _ _
  · cases hline
    exact Nat.zero_le _

/-! ## What an iteration does -/

section Iterations

variable {state next : HeaderLoop}

/-- With one byte left the loop reads an empty string and starts over. -/
theorem headerStep_of_space_eq_one (hspace : state.space = 1) :
    headerStep state = some state := by
  have hiterate : iterate state = .next state := by
    rw [iterate, hspace, fgets_one]
    rfl
  rw [headerStep, hiterate]

/-- Any other iteration that goes on has taken a line from the stream and
stays in the buffer. -/
theorem headerStep_of_space_ne_one (hspace : state.space ≠ 1)
    (hstep : headerStep state = some next) :
    next.input.length < state.input.length ∧ next.cur ≤ lineSize := by
  rw [headerStep] at hstep
  split at hstep
  swap
  · cases hstep
  next reached hiterate =>
  cases hstep
  rw [iterate] at hiterate
  split at hiterate
  · cases hiterate
  next line input hread =>
  split at hiterate
  · cases hiterate
  split at hiterate
  · cases hiterate
  next kept headers hline =>
  cases hiterate
  have hlarge : 1 < state.space := by
    by_contra hsmall
    rw [fgets, if_pos (by omega)] at hread
    cases hread
  refine ⟨length_lt_of_fgets hlarge hread, ?_⟩
  obtain ⟨_, _, hfits⟩ := fgets_eq_some hlarge hread
  have hkept := headerLine_le hline
  have htext := length_cstr_le line
  rw [HeaderLoop.space] at hfits
  simp only
  omega

theorem headerStep_eq_self_iff :
    headerStep state = some state ↔ state.space = 1 := by
  constructor
  · intro hstep
    by_contra hspace
    exact absurd (headerStep_of_space_ne_one hspace hstep).1
      (Nat.lt_irrefl _)
  · exact headerStep_of_space_eq_one

/-- Every iteration repeats its state or shortens what is left to read. -/
theorem headerStep_progress (hstep : headerStep state = some next) :
    next = state ∨ next.input.length < state.input.length := by
  by_cases hspace : state.space = 1
  · left
    rw [headerStep_of_space_eq_one hspace, Option.some.injEq] at hstep
    exact hstep.symm
  · exact .inr (headerStep_of_space_ne_one hspace hstep).1

end Iterations

/-! ## Whole runs -/

theorem length_strsepSpace :
    (strsepSpace text).1.length ≤ text.length ∧
      ∀ rest, (strsepSpace text).2 = some rest → rest.length < text.length := by
  rw [strsepSpace]
  split
  · next token rest hcut =>
    have hlength := length_of_splitFirst hcut
    refine ⟨by simp only; omega, ?_⟩
    intro other hsame
    cases hsame
    omega
  · exact ⟨le_refl _, by simp⟩

theorem length_skipSpaces_le : (skipSpaces text).length ≤ text.length :=
  (dropWhile_suffix _).length_le

/-- The header lines are read behind the request line. -/
theorem parseRequestLine_le {text : Bytes} {request : RequestLine} {cur : ℕ}
    (hparse : parseRequestLine text = .ok (request, cur)) :
    cur ≤ text.length + 1 := by
  rw [parseRequestLine] at hparse
  split at hparse
  · cases hparse
  next method behindMethod hmethod =>
  split at hparse
  · cases hparse
  next path behindPath hpath =>
  have hbehindMethod := (length_strsepSpace text).2 behindMethod
    (by rw [hmethod])
  have hbehindPath := (length_strsepSpace _).2 behindPath (by rw [hpath])
  have hskipped := length_skipSpaces_le behindMethod
  have hprotocol := length_skipSpaces_le behindPath
  have htoken := (length_strsepSpace (skipSpaces behindPath)).1
  simp only at hparse
  split at hparse
  · cases hparse
  split at hparse
  · cases hparse
  split at hparse
  · cases hparse
  · cases hparse
    omega

theorem startHeaders_cur_le {input : Bytes} {start : HeaderLoop}
    (hstart : startHeaders input = some start) : start.cur ≤ lineSize := by
  rw [startHeaders] at hstart
  split at hstart
  · cases hstart
  next line rest hread =>
  split at hstart
  · cases hstart
  next request cur hparse =>
  cases hstart
  obtain ⟨_, _, hline⟩ := fgets_eq_some (by decide) hread
  have hcur := parseRequestLine_le hparse
  have htext := length_cstr_le line
  simp only
  omega

/-- In every run the next line is read inside the buffer. -/
theorem cur_le_of_reaches {input : Bytes} {start state : HeaderLoop}
    (hstart : startHeaders input = some start)
    (hreach : Reaches headerStep start state) : state.cur ≤ lineSize := by
  induction hreach with
  | refl => exact startHeaders_cur_le hstart
  | @tail before after _ hstep ih =>
    by_cases hspace : before.space = 1
    · rw [Option.mem_def, headerStep_of_space_eq_one hspace,
        Option.some.injEq] at hstep
      rwa [← hstep]
    · exact (headerStep_of_space_ne_one hspace hstep).2

/-- A request with two header lines that stay in the buffer. -/
def twoHeaders : Bytes :=
  bytes "GET / HTTP/1.1\nCookie: a=1\nUpgrade: websocket \n\n"

theorem cur_le_of_reaches_twoHeaders :
    ∃ start state, startHeaders twoHeaders = some start ∧
      Reaches headerStep start state ∧ start.cur = 16 ∧ state.cur = 48 ∧
      state.cur ≤ lineSize := by
  have hstart : startHeaders twoHeaders = some
      ⟨16, bytes "Cookie: a=1\nUpgrade: websocket \n\n", noHeaders⟩ := by
    decide +kernel
  have hcookie : headerStep
      ⟨16, bytes "Cookie: a=1\nUpgrade: websocket \n\n", noHeaders⟩ = some
        ⟨29, bytes "Upgrade: websocket \n\n",
          { noHeaders with cookie := some (bytes "a=1\n") }⟩ := by
    decide +kernel
  -- the blank behind the last value is not kept
  have hupgrade : headerStep ⟨29, bytes "Upgrade: websocket \n\n",
      { noHeaders with cookie := some (bytes "a=1\n") }⟩ = some
        ⟨48, [10], { noHeaders with
          cookie := some (bytes "a=1\n")
          upgradeHeader := some (bytes "websocket") }⟩ := by
    decide +kernel
  have hreach : Reaches headerStep _ _ :=
    Relation.ReflTransGen.tail (.single hcookie) hupgrade
  exact ⟨_, _, hstart, hreach, rfl, rfl, cur_le_of_reaches hstart hreach⟩

def HeaderReadingEnds (input : Bytes) : Prop :=
  ∀ start, startHeaders input = some start → Halts headerStep start

/-- The loop ends exactly when no line is read with one byte of the buffer
left. -/
theorem headerReadingEnds_iff (input : Bytes) :
    HeaderReadingEnds input ↔
      ∀ start state, startHeaders input = some start →
        Reaches headerStep start state → state.space ≠ 1 := by
  have hhalts (start : HeaderLoop) : Halts headerStep start ↔
      ∀ state, Reaches headerStep start state → state.space ≠ 1 := by
    rw [halts_iff_never_stuck (fun state => state.input.length)
      (fun _ _ => headerStep_progress)]
    simp only [ne_eq, headerStep_eq_self_iff]
  constructor
  · intro hends start state hstart
    exact (hhalts start).1 (hends start hstart) state
  · intro hspace start hstart
    exact (hhalts start).2 fun state => hspace start state hstart

/-- The request line `GET / ` with a protocol of `count` letters. -/
def longRequest (count : ℕ) : Bytes :=
  bytes "GET / " ++ replicate count 120

theorem length_longRequest (count : ℕ) :
    (longRequest count).length = count + 6 := by
  rw [longRequest, length_append, length_replicate, Nat.add_comm]
  rfl

/-- The request is read as one line and its protocol is kept. -/
theorem startHeaders_longRequest {count : ℕ} (hcount : count + 6 < lineSize) :
    startHeaders (longRequest count) = some ⟨count + 7, [], noHeaders⟩ := by
  have hbytes : longRequest count =
      71 :: 69 :: 84 :: 32 :: 47 :: 32 :: replicate count 120 := rfl
  have hspace : (32 : Byte) ∉ replicate count 120 := by
    simp
  have hread : fgets lineSize (longRequest count) =
      some (longRequest count, []) := by
    have hline : takeLine ((lineSize : ℤ) - 1).toNat (longRequest count) =
        (longRequest count, []) := by
      apply takeLine_of_not_mem
      · simp [hbytes, newline]
      · rw [length_longRequest]
        omega
    rw [fgets, if_neg (by decide), if_neg (by decide), if_neg (by simp [hbytes]),
      hline]
  have htext : cstr (longRequest count) = longRequest count := by
    apply cstr_eq_self
    simp [hbytes, NulFree]
  have hprotocol : strsepSpace (replicate count 120) =
      (replicate count 120, none) := by
    rw [strsepSpace, splitFirst_eq_none_iff.2 hspace]
  have hskip : skipSpaces (replicate count 120) =
      replicate count 120 := by
    cases count <;> simp [skipSpaces, replicate_succ]
  have hmethod : strsepSpace (longRequest count) =
      ([71, 69, 84], some (47 :: 32 :: replicate count 120)) := rfl
  have hpath : strsepSpace (skipSpaces (47 :: 32 :: replicate count 120)) =
        ([47], some (replicate count 120)) := rfl
  have hparse : parseRequestLine (longRequest count) =
      .ok (⟨false, bytes "status-overview.asp", none⟩,
        (longRequest count).length - count + count + 1) := by
    simp only [parseRequestLine, hmethod, hpath, hskip, hprotocol,
      length_replicate]
    rfl
  rw [startHeaders, hread]
  simp only [htext, hparse, length_longRequest]
  congr 2
  omega

/-- A request line of 9998 bytes leaves one byte of the buffer, and the loop
reads an empty string for ever. -/
theorem longRequest_never_ends :
    startHeaders (longRequest 9992) = some ⟨9999, [], noHeaders⟩ ∧
      headerStep ⟨9999, [], noHeaders⟩ = some ⟨9999, [], noHeaders⟩ ∧
      ¬ HeaderReadingEnds (longRequest 9992) := by
  have hstart := startHeaders_longRequest (by decide : 9992 + 6 < lineSize)
  have hstuck : headerStep ⟨9999, [], noHeaders⟩ =
      some ⟨9999, [], noHeaders⟩ := headerStep_of_space_eq_one (by decide)
  refine ⟨hstart, hstuck, ?_⟩
  intro hends
  exact not_halts_of_reaches_stuck Relation.ReflTransGen.refl hstuck
    (hends _ hstart)

end Tomato64.RequestHeaders
