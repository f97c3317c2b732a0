import Tomato64.Core.Run
import Tomato64.Httpd.Upgrade

/-!
# The bytes of an upload

The streaming loop of `wi_upgrade` with the bytes it moves.  The result of
`web_read` is kept in a `size_t`, and the counter of the bytes still expected
is an `int`.
-/

namespace Tomato64.UploadRelay

open List Run Text Upgrade

/-- What `web_read` finds: at least one byte, the end of the connection, or an
error. -/
inductive WebRead
  | chunk (first : Byte) (more : Bytes)
  | eof
  | error
  deriving DecidableEq, Repr

def WebRead.stored (size : ℕ) : WebRead → Bytes
  | .chunk first more => (first :: more).take size
  | .eof => []
  | .error => []

/-- The value that `web_read` returns. -/
def WebRead.result (size : ℕ) : WebRead → ℤ
  | .chunk first more => ((first :: more).take size).length
  | .eof => 0
  | .error => -1

/-- An `int` converted to `size_t`. -/
def sizeT (value : ℤ) : ℕ :=
  (value % 2 ^ 64).toNat

def asInt (value : ℤ) : ℤ :=
  value.bmod (2 ^ 32)

/-- `uint8 buf[1024]`. -/
abbrev Buffer := { content : Bytes // content.length = 1024 }

def Buffer.store (buf : Buffer) (data : Bytes) : Buffer :=
  ⟨(data ++ buf.1.drop data.length).take 1024, by
    have hlength := buf.2
    rw [length_take, length_append, length_drop, hlength]
    omega⟩

/-- The bytes that `safe_fwrite(buf, 1, count, f)` hands to a pipe that is
read.  A count beyond the buffer is not covered by C, and `overrun` is what the
stream then takes from the memory. -/
def safeFwrite (overrun : Bytes) (buf : Buffer) (count : ℕ) : Bytes :=
  if count ≤ 1024 then buf.1.take count else overrun

/-! ## The loop -/

/-- The variables of the loop, what has been received and what has been
written.  `failure` is the error with which the transfer was given up; then
`complete` is 0. -/
structure Relay where
  len : ℤ
  buf : Buffer
  received : Bytes
  written : Bytes
  failure : Option String
  deriving DecidableEq

/-- The loop goes on. -/
def Relay.running (state : Relay) : Prop :=
  0 < state.len ∧ state.failure = none

instance (state : Relay) : Decidable state.running :=
  inferInstanceAs (Decidable (_ ∧ _))

/-- `MIN((unsigned int)len, sizeof(buf))`. -/
def Relay.request (state : Relay) : ℕ :=
  min state.len.toNat 1024

/-- A round of the loop. -/
def step (overrun : Bytes) (state : Relay) (read : WebRead) : Relay :=
  if ¬ state.running then state
  else
    let m := sizeT (read.result state.request)
    let buf := state.buf.store (read.stored state.request)
    if m = 0 then
      { state with buf := buf, failure := some "Error reading file" }
    else
      let taken := safeFwrite overrun buf m
      { len := asInt (state.len - m)
        buf := buf
        received := state.received ++ read.stored state.request
        written := state.written ++ taken
        failure :=
          if taken.length = m then none else some "Error writing to pipe" }

/-- An upload whose size was accepted, before the first read. -/
structure Accepted where
  len : ℤ
  buf : Buffer
  min_le : firmwareMinSize ≤ len
  le_max : len ≤ firmwareMaxSize

def Accepted.start (upload : Accepted) : Relay :=
  ⟨upload.len, upload.buf, [], [], none⟩

/-! ## A round -/

section Round

variable {overrun : Bytes} {state : Relay}

theorem step_of_not_running (hrunning : ¬ state.running) (read : WebRead) :
    step overrun state read = state := by
  rw [step, if_pos hrunning]

theorem step_eof (hrunning : state.running) :
    step overrun state .eof = { state with
        buf := state.buf.store []
        failure := some "Error reading file" } := by
  rw [step, if_neg (not_not.mpr hrunning)]
  rfl

theorem store_take (buf : Buffer) {data : Bytes} (hdata : data.length ≤ 1024) :
    (buf.store data).1.take data.length = data := by
  change ((data ++ buf.1.drop data.length).take 1024).take data.length = data
  rw [take_take, Nat.min_eq_left hdata, take_left]

/-- A chunk is passed on as it is. -/
theorem step_chunk (hrunning : state.running)
    (hmax : state.len ≤ firmwareMaxSize) (first : Byte) (more : Bytes) :
    step overrun state (.chunk first more) =
      { len := state.len - ((first :: more).take state.request).length
        buf := state.buf.store ((first :: more).take state.request)
        received := state.received ++ (first :: more).take state.request
        written := state.written ++ (first :: more).take state.request
        failure := none } := by
  generalize hdata : (first :: more).take state.request = data
  have hpos : 0 < data.length := by
    rw [← hdata, length_take, length_cons, Relay.request]
    have hlen := hrunning.1
    omega
  have hlength : data.length ≤ 1024 ∧ (data.length : ℤ) ≤ state.len := by
    have hle : data.length ≤ state.request := by
      rw [← hdata]
      exact length_take_le ..
    rw [Relay.request] at hle
    omega
  have hsize : sizeT (data.length : ℤ) = data.length := by
    rw [sizeT]
    omega
  have hcounter :
      asInt (state.len - data.length) = state.len - data.length := by
    rw [firmwareMaxSize] at hmax
    rw [asInt, Int.bmod_eq_of_le (by omega) (by omega)]
  have htaken :
      safeFwrite overrun (state.buf.store data) data.length = data := by
    rw [safeFwrite, if_pos hlength.1, store_take state.buf hlength.1]
  rw [step, if_neg (not_not.mpr hrunning)]
  simp only [WebRead.result, WebRead.stored, hdata, hsize, hcounter, htaken]
  rw [if_neg (by omega), if_pos trivial]

theorem sizeT_neg_one : sizeT (-1) = 2 ^ 64 - 1 := by
  decide

/-- A failed read makes the counter larger. -/
theorem len_step_error (hrunning : state.running)
    (hmax : state.len ≤ firmwareMaxSize) :
    (step overrun state .error).len = state.len + 1 := by
  have hlen := hrunning.1
  rw [firmwareMaxSize] at hmax
  rw [step, if_neg (not_not.mpr hrunning)]
  simp only [WebRead.result, sizeT_neg_one]
  rw [if_neg (by decide)]
  change asInt (state.len - (2 ^ 64 - 1 : ℕ)) = state.len + 1
  rw [asInt, Int.bmod_def]
  omega

end Round

/-! ## The whole transfer -/

variable {output : Option Bytes}

/-- The error for the page.  Behind the loop a line of the flash program in the
file `/tmp/.mtd-write` takes its place. -/
def Relay.report (output : Option Bytes) (state : Relay) : Option String :=
  if (resmsgFread output).isSome then none else state.failure

/-- What a round shall do: everything received has been written, the counter
has not grown, and a result that is not positive has ended the transfer and is
reported. -/
structure Relayed (overrun : Bytes) (output : Option Bytes) (state : Relay)
    (read : WebRead) : Prop where
  bytes : (step overrun state read).written = (step overrun state read).received
  counter : (step overrun state read).len ≤ state.len
  stops : state.running → read.result state.request ≤ 0 →
    (step overrun state read).report output ≠ none

/-- The loop gets no error from a read, and the end of the connection only if
the flash program leaves no line. -/
def ReadSucceeds (output : Option Bytes) (state : Relay) (read : WebRead) :
    Prop :=
  state.running →
    read ≠ .error ∧ (read = .eof → resmsgFread output = none)

/-- Everything received so far has been written, and no more is expected than
at the beginning. -/
structure Faithful (state : Relay) : Prop where
  bytes : state.written = state.received
  bound : state.len ≤ firmwareMaxSize

theorem Accepted.faithful (upload : Accepted) : Faithful upload.start :=
  ⟨rfl, upload.le_max⟩

variable {state : Relay}

theorem result_chunk_pos (hrunning : state.running)
    (first : Byte) (more : Bytes) :
    0 < (WebRead.chunk first more).result state.request := by
  have hlen := hrunning.1
  rw [WebRead.result, length_take, length_cons, Relay.request]
  omega

theorem report_step_eof (overrun : Bytes) (output : Option Bytes)
    (hrunning : state.running) :
    (step overrun state .eof).report output ≠ none ↔
      resmsgFread output = none := by
  rw [step_eof hrunning, Relay.report]
  cases resmsgFread output <;> simp

theorem relayed_iff_readSucceeds (overrun : Bytes) (output : Option Bytes)
    (state : Relay) (read : WebRead) (hstate : Faithful state) :
    Relayed overrun output state read ↔ ReadSucceeds output state read := by
  by_cases hrunning : state.running
  · cases read with
    | chunk first more =>
      constructor
      · exact fun _ _ => ⟨WebRead.noConfusion, WebRead.noConfusion⟩
      intro _
      have hpos := result_chunk_pos hrunning first more
      refine ⟨?_, ?_, fun _ hresult => absurd hresult (by omega)⟩
      · rw [step_chunk hrunning hstate.bound, hstate.bytes]
      · rw [step_chunk hrunning hstate.bound]
        change state.len - ((first :: more).take state.request).length ≤
          state.len
        omega
    | eof =>
      have hreport := report_step_eof overrun output hrunning
      constructor
      · intro hrelayed _
        exact ⟨WebRead.noConfusion, fun _ =>
          hreport.mp (hrelayed.stops hrunning (Int.le_refl 0))⟩
      intro hsucceeds
      refine ⟨?_, ?_, fun _ _ => hreport.mpr ((hsucceeds hrunning).2 rfl)⟩
      · rw [step_eof hrunning, hstate.bytes]
      · rw [step_eof hrunning]
    | error =>
      constructor
      · intro hrelayed _
        have hcounter := hrelayed.counter
        rw [len_step_error hrunning hstate.bound] at hcounter
        omega
      · exact fun hsucceeds => absurd rfl (hsucceeds hrunning).1
  · constructor
    · exact fun _ hyes => absurd hyes hrunning
    · intro _
      refine ⟨?_, ?_, fun hyes => absurd hyes hrunning⟩
      · rw [step_of_not_running hrunning, hstate.bytes]
      · rw [step_of_not_running hrunning]

variable {overrun : Bytes}

theorem Relayed.faithful {read : WebRead}
    (hrelayed : Relayed overrun output state read) (hstate : Faithful state) :
    Faithful (step overrun state read) :=
  ⟨hrelayed.bytes, hrelayed.counter.trans hstate.bound⟩

/-- Every round of a transfer relays what it receives if and only if no read
fails, and none finds the end while the flash program has left a line. -/
theorem relayed_iff (overrun : Bytes) (output : Option Bytes)
    (upload : Accepted) (reads : List WebRead) :
    Along (step overrun) (Relayed overrun output) upload.start reads ↔
      Along (step overrun) (ReadSucceeds output) upload.start reads := by
  apply along_congr _ (relayed_iff_readSucceeds overrun output) upload.faithful
  intro state read hstate hsucceeds
  exact ((relayed_iff_readSucceeds overrun output state read hstate).mpr
    hsucceeds).faithful hstate

def smallest : Accepted where
  len := firmwareMinSize
  buf := ⟨replicate 1024 0, length_replicate⟩
  min_le := Int.le_refl _
  le_max := by decide

theorem running_smallest : smallest.start.running :=
  ⟨by decide, rfl⟩

/-- The connection breaks before the first byte. -/
theorem not_relayed_error :
    ¬ Along (step []) (Relayed [] none) smallest.start [.error] := by
  rintro ⟨hrelayed, -⟩
  have hcounter := hrelayed.counter
  rw [len_step_error running_smallest smallest.le_max] at hcounter
  omega

/-! ## The counts of the transfer -/

/-- The reads as the rounds of `streamBody`, which counts the bytes only. -/
def rounds (len : ℤ) : List WebRead → List Round
  | [] => []
  | .chunk _ more :: reads =>
    ⟨.data more.length, readCount more.length len⟩ ::
      rounds (len - readCount more.length len) reads
  | .eof :: _ => [⟨.eof, 0⟩]
  | .error :: _ => [⟨.error, 0⟩]

theorem foldl_step_of_not_running
    (hrunning : ¬ state.running) (reads : List WebRead) :
    reads.foldl (step overrun) state = state := by
  induction reads with
  | nil => rfl
  | cons read reads ih =>
    rw [foldl_cons, step_of_not_running hrunning, ih]

theorem step_error (hoverrun : overrun.length < 2 ^ 64 - 1)
    (hrunning : state.running) :
    (step overrun state .error).received = state.received ∧
      (step overrun state .error).failure = some "Error writing to pipe" := by
  rw [step, if_neg (not_not.mpr hrunning)]
  simp only [WebRead.result, WebRead.stored, sizeT_neg_one]
  rw [if_neg (by decide), append_nil, safeFwrite, if_neg (by decide),
    if_neg (by omega)]
  exact ⟨rfl, rfl⟩

/-- The transfer of counts that matches one of bytes between two states. -/
def Counts (state final : Relay) (body : BodyEnd) : Prop :=
  body.left = final.len ∧ body.complete = final.failure.isNone ∧
    body.error = final.failure ∧
    final.received.length = state.received.length + body.piped

theorem counts_of_not_running (hfailure : state.failure = none)
    (hrunning : ¬ state.running) (reads : List Round) :
    Counts state state (streamBody state.len reads) := by
  have hlen : state.len ≤ 0 := by
    by_contra hpos
    exact hrunning ⟨by omega, hfailure⟩
  rw [streamBody_of_le hlen, Counts, hfailure]
  exact ⟨rfl, rfl, rfl, rfl⟩

/-- The transfer of the bytes ends as the transfer of their counts does. -/
theorem counts_streamBody
    (hoverrun : overrun.length < 2 ^ 64 - 1) (reads : List WebRead)
    (hfailure : state.failure = none) (hbound : state.len ≤ firmwareMaxSize)
    (hended : ¬ (reads.foldl (step overrun) state).running) :
    Counts state (reads.foldl (step overrun) state)
      (streamBody state.len (rounds state.len reads)) := by
  induction reads generalizing state with
  | nil => exact counts_of_not_running hfailure hended _
  | cons read reads ih =>
    by_cases hrunning : state.running
    swap
    · rw [foldl_step_of_not_running hrunning]
      exact counts_of_not_running hfailure hrunning _
    have hpos := hrunning.1
    rw [foldl_cons] at hended ⊢
    cases read with
    | chunk first more =>
      have hcount : ((first :: more).take state.request).length =
          readCount more.length state.len := by
        rw [length_take, length_cons, readCount, Relay.request, Nat.min_comm]
      rw [step_chunk hrunning hbound] at hended ⊢
      rw [hcount] at hended ⊢
      obtain ⟨hleft, hcomplete, herror, hpiped⟩ :=
        ih rfl (by simp only; omega) hended
      rw [rounds, streamBody_data hpos]
      refine ⟨hleft, hcomplete, herror, hpiped.trans ?_⟩
      simp only [length_append, hcount, BodyEnd.addPiped]
      omega
    | eof =>
      have hover : ¬ (step overrun state .eof).running := by
        rw [step_eof hrunning]
        exact fun hyes => Option.some_ne_none _ hyes.2
      rw [foldl_step_of_not_running hover, step_eof hrunning, rounds,
        streamBody, if_neg (by omega)]
      exact ⟨rfl, rfl, rfl, rfl⟩
    | error =>
      obtain ⟨hreceived, herror⟩ := step_error hoverrun hrunning
      have hover : ¬ (step overrun state .error).running :=
        fun hyes => Option.some_ne_none _ (herror.symm.trans hyes.2)
      rw [foldl_step_of_not_running hover, rounds, streamBody,
        if_neg (by omega), Counts, len_step_error hrunning hbound,
        hreceived, herror]
      exact ⟨rfl, rfl, rfl, rfl⟩

/-- The connection ends behind the first three bytes. -/
theorem counts_streamBody_threeBytes :
    Counts smallest.start
      ([.chunk 65 [66, 67], .eof].foldl (step []) smallest.start)
      (streamBody firmwareMinSize
        (rounds firmwareMinSize [.chunk 65 [66, 67], .eof])) :=
  counts_streamBody (by decide) [.chunk 65 [66, 67], .eof] rfl smallest.le_max
    (by
      rw [foldl_cons, step_chunk running_smallest smallest.le_max]
      exact fun hyes => Option.some_ne_none _ hyes.2)

end Tomato64.UploadRelay
