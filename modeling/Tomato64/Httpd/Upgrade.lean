import Tomato64.Core.Stdio

/-!
# Firmware upload

`wi_upgrade` streams the posted image into a pipe that the flash program
reads, waits for that program, and decides whether `wo_flash` shall erase the
NVRAM before the reboot.

What the system answers is part of the upload: the bytes before the image, the
results of the reads and of the pipe writes, how the flash program ends, and
what stands in its output file.  `webcgi_safeget("_reset", "0")` has been
compared with `"1"` already, and the session has been checked.
-/

namespace Tomato64.Upgrade

open Text Stdio

/-- How `skip_header` ends.  A round of its loop that reads nothing and is
repeated as it is never ends. -/
inductive HeaderEnd
  | found (len : ℤ)
  | missing (len : ℤ)
  | endless
  deriving DecidableEq, Repr

/-- `skip_header`: reads lines up to an empty one, with a buffer of 2048
bytes. -/
def skipHeader (len : ℤ) (input : Bytes) : HeaderEnd :=
  if len ≤ 0 then .missing len
  else
    match fgets (min len 2048) input with
    | none => .missing len
    | some (line, rest) =>
      let left := len - min ((cstr line).length : ℤ) len
      if cstr line = [10] ∨ cstr line = [13, 10] then .found left
      else if rest.length < input.length then skipHeader left rest
      else .endless
  termination_by input.length

/-! ## The image -/

/-- The result of `web_read`: at least one byte and up to `more` further ones,
the end of the connection, or an error. -/
inductive ReadResult
  | data (more : ℕ)
  | eof
  | error
  deriving DecidableEq, Repr

/-- One round of the streaming loop: what the read delivers and how many bytes
the pipe takes of them. -/
structure Round where
  read : ReadResult
  accepted : ℕ
  deriving DecidableEq, Repr

/-- How the streaming loop ends: the length still expected, the bytes that
were received and handed to the flash program, and the variables `complete`
and `error`. -/
structure BodyEnd where
  left : ℤ
  piped : ℕ
  complete : Bool
  error : Option String
  deriving DecidableEq, Repr

def BodyEnd.addPiped (count : ℕ) (body : BodyEnd) : BodyEnd :=
  { body with piped := count + body.piped }

/-- The number of bytes a read delivers into `buf[1024]`. -/
def readCount (more : ℕ) (len : ℤ) : ℕ :=
  min (more + 1) (min len.toNat 1024)

/-- The streaming loop.  The error pointer holds `"Error reading file"` before
it.  A failed read returns -1, which is a large `size_t`: it does not count as
the end, it makes `len` one larger, and no pipe takes that many bytes. -/
def streamBody (len : ℤ) (rounds : List Round) : BodyEnd :=
  if len ≤ 0 then ⟨len, 0, true, none⟩
  else
    match rounds with
    | [] => ⟨len, 0, false, some "Error reading file"⟩
    | round :: rounds =>
      match round.read with
      | .eof => ⟨len, 0, false, some "Error reading file"⟩
      | .error => ⟨len + 1, 0, false, some "Error writing to pipe"⟩
      | .data more =>
        let count := readCount more len
        if round.accepted = count then
          (streamBody (len - count) rounds).addPiped count
        else ⟨len - count, 0, false, some "Error writing to pipe"⟩

/-! ## The flash program -/

/-- The status word of a child process. -/
inductive WaitStatus
  | exited (code : ℕ)
  | signaled (signal : ℕ)
  deriving DecidableEq, Repr

/-- `WIFEXITED(status) && WEXITSTATUS(status) == 0`. -/
def WaitStatus.succeeded : WaitStatus → Bool
  | .exited code => code = 0
  | .signaled _ => false

/-- `resmsg_fread`: the first line of the file, at most 255 bytes of it, when
it is not empty. -/
def resmsgFread (file : Option Bytes) : Option Bytes :=
  match (cstr ((file.getD []).take 255)).takeWhile (· ≠ 10) with
  | [] => none
  | line => some line

/-! ## The handlers -/

def firmwareMinSize : ℤ := 1 * 1024 * 1024
def firmwareMaxSize : ℤ := 1024 * 1024 * 1024

/-- An upload and everything the system answers while it is handled. -/
structure Upload where
  /-- the build has `TOMATO64_HAS_UBI_SYSUPGRADE` -/
  ubi : Bool
  reset : Bool
  len : ℤ
  /-- the bytes from which the part header is read -/
  input : Bytes
  /-- `(float)len > available_space` -/
  diskTooSmall : ℤ → Bool
  mkstemp : Bool
  mkfifo : Bool
  /-- the flash program can be forked -/
  starts : Bool
  /-- the attempts to open the pipe -/
  fifoOpens : List Bool
  rounds : List Round
  /-- how the flash program ends -/
  child : WaitStatus
  /-- `SIGCHLD` is ignored, so that `waitpid` finds no child -/
  sigchldIgnored : Bool
  /-- what the uninitialised variable `status` holds -/
  stale : WaitStatus
  /-- the file `/tmp/.mtd-write` -/
  output : Option Bytes

/-- The part of `wi_upgrade` from `mkstemp` to the label `ERROR2`: the end of
the transfer and whether there is a child to wait for. -/
def transfer (upload : Upload) (len : ℤ) : BodyEnd × Bool :=
  if !upload.mkstemp then
    (⟨len, 0, true, some "Unable to create file"⟩, false)
  else if !upload.mkfifo then
    (⟨len, 0, true, some "Unable to create fifo"⟩, false)
  else if !upload.starts then
    (⟨len, 0, true, some "Unable to start flash program"⟩, false)
  else if !(upload.fifoOpens.take 100).any id then
    (⟨len, 0, true, some "Unable to open fifo"⟩, true)
  else (streamBody len upload.rounds, true)

/-- The variable `status` behind the wait loop. -/
def waitedStatus (upload : Upload) : WaitStatus :=
  if upload.sigchldIgnored then upload.stale else upload.child

/-- The variable `error` behind the wait for the flash program. -/
def statusError (upload : Upload) (len : ℤ) : Option String :=
  let (body, started) := transfer upload len
  if started && body.error.isNone then
    if !body.complete then some "Incomplete upload"
    else if !(waitedStatus upload).succeeded then some "Flash failed"
    else none
  else body.error

/-- The variable `error` when `upgrade_reset` is set from it. -/
def finalError (upload : Upload) (len : ℤ) : Option String :=
  if (resmsgFread upload.output).isSome then none
  else statusError upload len

/-- What `wi_upgrade` leaves behind: the globals `rboot` and `upgrade_reset`,
the variables `resmsg` and `resreset` for the page, and the length given to
`web_eat`. -/
structure Handled where
  rboot : Bool
  upgradeReset : Bool
  resmsg : Option Bytes
  resreset : Bool
  eaten : ℤ
  deriving DecidableEq, Repr

/-- A jump to the label `ERROR` before anything was done. -/
def refuse (upload : Upload) (error : String) (len : ℤ) : Handled :=
  ⟨false, false, some (bytes error), upload.reset, len⟩

def flash (upload : Upload) (len : ℤ) : Handled :=
  let error := finalError upload len
  { rboot := true
    upgradeReset := error.isNone && upload.reset
    resmsg := (error.map bytes).or (resmsgFread upload.output)
    resreset := upload.reset
    eaten := (transfer upload len).1.left }

/-- `wi_upgrade`.  There is no result when `skip_header` does not end. -/
def wiUpgrade (upload : Upload) : Option Handled :=
  match skipHeader upload.len upload.input with
  | .endless => none
  | .missing len => some (refuse upload "Error reading file" len)
  | .found len =>
    if len < firmwareMinSize then
      some (refuse upload "Invalid file: too small" len)
    else if len > firmwareMaxSize then
      some (refuse upload "Invalid file: too large" len)
    else if !upload.ubi && upload.diskTooSmall len then
      some (refuse upload "Insufficient disk space to extract update" len)
    else some (flash upload len)

/-- `wo_flash`: whether the NVRAM is erased before the reboot. -/
def woFlash (ubi : Bool) (handled : Handled) : Bool :=
  handled.rboot && !ubi && handled.upgradeReset

def nvramErased (upload : Upload) : Bool :=
  match wiUpgrade upload with
  | none => false
  | some handled => woFlash upload.ubi handled

/-! ## The transfer -/

/-- The rounds deliver the whole image and the pipe takes all of it. -/
inductive Delivers : ℤ → List Round → Prop
  | done {len : ℤ} (hlen : len ≤ 0) (rounds : List Round) :
      Delivers len rounds
  | round {len : ℤ} (hlen : 0 < len) (more : ℕ) {rounds : List Round}
      (hrest : Delivers (len - readCount more len) rounds) :
      Delivers len (⟨.data more, readCount more len⟩ :: rounds)

variable {len : ℤ} {upload : Upload}

theorem streamBody_of_le (hlen : len ≤ 0) (rounds : List Round) :
    streamBody len rounds = ⟨len, 0, true, none⟩ := by
  rw [streamBody.eq_def, if_pos hlen]

theorem streamBody_data (hlen : 0 < len) (more : ℕ) (rounds : List Round) :
    streamBody len (⟨.data more, readCount more len⟩ :: rounds) =
      (streamBody (len - readCount more len) rounds).addPiped
        (readCount more len) := by
  rw [streamBody, if_neg (by omega)]
  simp

theorem readCount_pos (hlen : 0 < len) (more : ℕ) :
    0 < readCount more len ∧ (readCount more len : ℤ) ≤ len := by
  rw [readCount]
  omega

/-- A loop that is served to the end has handed on the whole image. -/
theorem streamBody_of_delivers {rounds : List Round}
    (hdelivers : Delivers len rounds) :
    (streamBody len rounds).error = none ∧
      (streamBody len rounds).complete = true ∧
      (streamBody len rounds).piped = len.toNat := by
  induction hdelivers with
  | done hlen rounds =>
    rw [streamBody_of_le hlen]
    exact ⟨rfl, rfl, (Int.toNat_of_nonpos hlen).symm⟩
  | @round len hlen more rounds _ ih =>
    have hcount := readCount_pos hlen more
    rw [streamBody_data hlen]
    refine ⟨ih.1, ih.2.1, ?_⟩
    rw [BodyEnd.addPiped, ih.2.2]
    simp only
    omega

/-- Any other loop ends with an error before the whole image is handed on. -/
theorem streamBody_of_not_delivers {rounds : List Round}
    (hdelivers : ¬ Delivers len rounds) :
    (streamBody len rounds).error ≠ none ∧
      (streamBody len rounds).piped < len.toNat := by
  have hlen : 0 < len := by
    by_contra hdone
    exact hdelivers (.done (by omega) rounds)
  have hstop : 0 < len.toNat := by omega
  induction rounds generalizing len with
  | nil =>
    rw [streamBody.eq_def, if_neg (by omega)]
    exact ⟨by simp, hstop⟩
  | cons round rounds ih =>
    obtain ⟨read, accepted⟩ := round
    rw [streamBody, if_neg (by omega)]
    cases read with
    | eof => exact ⟨by simp, hstop⟩
    | error => exact ⟨by simp, hstop⟩
    | data more =>
      simp only
      split
      swap
      · exact ⟨by simp, hstop⟩
      next haccepted =>
      subst haccepted
      have hrest : ¬ Delivers (len - readCount more len) rounds :=
        fun hrest => hdelivers (.round hlen more hrest)
      have hleft : 0 < len - readCount more len := by
        by_contra hdone
        exact hrest (.done (by omega) rounds)
      obtain ⟨herror, hpiped⟩ := ih hrest hleft (by omega)
      refine ⟨herror, ?_⟩
      rw [BodyEnd.addPiped]
      simp only
      omega

/-- The system lets the transfer begin and the rounds deliver the image. -/
def Transferred (upload : Upload) (len : ℤ) : Prop :=
  upload.mkstemp = true ∧ upload.mkfifo = true ∧ upload.starts = true ∧
    (upload.fifoOpens.take 100).any id = true ∧
    Delivers len upload.rounds

theorem transfer_of_transferred (htransferred : Transferred upload len) :
    (transfer upload len).2 = true ∧ (transfer upload len).1.error = none ∧
      (transfer upload len).1.complete = true ∧
      (transfer upload len).1.piped = len.toNat := by
  obtain ⟨hmkstemp, hmkfifo, hstarts, hopens, hdelivers⟩ := htransferred
  have htransfer : transfer upload len =
      (streamBody len upload.rounds, true) := by
    simp only [transfer, hmkstemp, hmkfifo, hstarts, hopens, Bool.not_true,
      Bool.false_eq_true, if_false]
  rw [htransfer]
  exact ⟨rfl, streamBody_of_delivers hdelivers⟩

theorem transfer_of_not_transferred (hlen : 0 < len)
    (htransferred : ¬ Transferred upload len) :
    (transfer upload len).1.error ≠ none ∧
      (transfer upload len).1.piped < len.toNat := by
  have hstop : 0 < len.toNat := by omega
  rw [transfer]
  split
  · exact ⟨by simp, hstop⟩
  next hmkstemp =>
  split
  · exact ⟨by simp, hstop⟩
  next hmkfifo =>
  split
  · exact ⟨by simp, hstop⟩
  next hstarts =>
  split
  · exact ⟨by simp, hstop⟩
  next hopens =>
  apply streamBody_of_not_delivers
  intro hdelivers
  exact htransferred ⟨by simpa using hmkstemp, by simpa using hmkfifo,
    by simpa using hstarts, by simpa using hopens, hdelivers⟩

/-! ## The decision to erase -/

theorem statusError_eq_none_iff (hlen : 0 < len) :
    statusError upload len = none ↔
      Transferred upload len ∧ (waitedStatus upload).succeeded = true := by
  by_cases htransferred : Transferred upload len
  · obtain ⟨hstarted, herror, hcomplete, _⟩ :=
      transfer_of_transferred htransferred
    simp [statusError, hstarted, herror, hcomplete, htransferred]
  · obtain ⟨herror, _⟩ := transfer_of_not_transferred hlen htransferred
    simp [statusError, herror, htransferred]

/-- The error is gone when the flash program has printed a line, whatever the
transfer and the program came to. -/
theorem finalError_eq_none_iff (hlen : 0 < len) :
    finalError upload len = none ↔ (resmsgFread upload.output).isSome = true ∨
        Transferred upload len ∧ (waitedStatus upload).succeeded = true := by
  rw [finalError]
  split
  · next hprinted => simp [hprinted]
  · next hsilent => rw [statusError_eq_none_iff hlen, or_iff_right hsilent]

/-- The upload passes the checks before the point of no return. -/
def Flashes (upload : Upload) (len : ℤ) : Prop :=
  skipHeader upload.len upload.input = .found len ∧
    firmwareMinSize ≤ len ∧ len ≤ firmwareMaxSize ∧
    (!upload.ubi && upload.diskTooSmall len) = false

theorem Flashes.pos (hflashes : Flashes upload len) : 0 < len := by
  have hmin := hflashes.2.1
  rw [firmwareMinSize] at hmin
  omega

theorem nvramErased_iff :
    nvramErased upload = true ↔ ∃ len, Flashes upload len ∧
      upload.ubi = false ∧ upload.reset = true ∧
        finalError upload len = none := by
  have hrefused (error : String) (len : ℤ) :
      woFlash upload.ubi (refuse upload error len) = false := rfl
  simp only [nvramErased, wiUpgrade, Flashes]
  cases hheader : skipHeader upload.len upload.input with
  | endless => simp
  | missing len => simp [hrefused]
  | found len =>
    simp only [HeaderEnd.found.injEq, ← Int.not_lt, and_assoc, exists_eq_left']
    split_ifs with hmin hmax hdisk
    · simp [hrefused, hmin]
    · simp [hrefused, Int.not_le.2 hmax]
    · simp [hrefused, hdisk]
    · simp [woFlash, flash, hmin, hmax, hdisk]
      tauto

/-- The NVRAM is erased only after the complete image was received and the
flash program ended well. -/
def ErasesOnlyAfterSuccess (upload : Upload) : Prop :=
  nvramErased upload = true →
    (∃ len, skipHeader upload.len upload.input = .found len ∧
      (transfer upload len).1.piped = len.toNat) ∧
    upload.child.succeeded = true

/-- An upload that fails and is taken for a success all the same: the flash
program has printed a line, or its status is not seen because `SIGCHLD` is
ignored and the variable `status` happens to hold a success. -/
def TakenForSuccess (upload : Upload) (len : ℤ) : Prop :=
  ¬ (Transferred upload len ∧ upload.child.succeeded = true) ∧
    ((resmsgFread upload.output).isSome = true ∨
      Transferred upload len ∧ upload.sigchldIgnored = true ∧
        upload.stale.succeeded = true)

/-- The image was received as a whole exactly when the transfer was served to
its end. -/
theorem received_iff (hflashes : Flashes upload len) :
    (∃ declared, skipHeader upload.len upload.input = .found declared ∧
        (transfer upload declared).1.piped = declared.toNat) ↔
      Transferred upload len := by
  constructor
  · rintro ⟨declared, hheader, hpiped⟩
    obtain rfl : len = declared := by
      have hsame := hflashes.1.symm.trans hheader
      rwa [HeaderEnd.found.injEq] at hsame
    by_contra htransferred
    have hless := (transfer_of_not_transferred hflashes.pos htransferred).2
    omega
  · intro htransferred
    exact ⟨len, hflashes.1, (transfer_of_transferred htransferred).2.2.2⟩

/-- The erasure is tied to success exactly for the uploads that are refused,
ask for no reset, run on a UBI build, or are not taken for a success
wrongly. -/
theorem erasesOnlyAfterSuccess_iff (upload : Upload) :
    ErasesOnlyAfterSuccess upload ↔
      ∀ len, Flashes upload len → upload.ubi = false →
        upload.reset = true → ¬ TakenForSuccess upload len := by
  rw [ErasesOnlyAfterSuccess, nvramErased_iff]
  simp only [forall_exists_index, and_imp]
  refine forall₂_congr fun len hflashes => forall₂_congr fun hubi hreset => ?_
  rw [received_iff hflashes, finalError_eq_none_iff hflashes.pos,
    TakenForSuccess, waitedStatus]
  cases upload.sigchldIgnored with
  | true =>
    tauto
  | false =>
    tauto

/-- The connection ends behind the part header, the flash program fails and
has printed `error`. -/
def brokenUpload : Upload where
  ubi := false
  reset := true
  len := 1048578
  input := [13, 10]
  diskTooSmall := fun _ => false
  mkstemp := true
  mkfifo := true
  starts := true
  fifoOpens := [true]
  rounds := [⟨.eof, 0⟩]
  child := .exited 1
  sigchldIgnored := true
  stale := .exited 0
  output := some [101, 114, 114, 111, 114, 10]

/-- The NVRAM is erased although nothing was received and nothing was
flashed. -/
theorem brokenUpload_erases :
    nvramErased brokenUpload = true ∧
      skipHeader brokenUpload.len brokenUpload.input = .found 1048576 ∧
      (transfer brokenUpload 1048576).1.piped = 0 ∧
      brokenUpload.child.succeeded = false ∧
      ¬ ErasesOnlyAfterSuccess brokenUpload := by
  have herased : nvramErased brokenUpload = true := by
    decide +kernel
  refine ⟨herased, by decide +kernel, by decide, by decide, ?_⟩
  intro hclaim
  exact absurd (hclaim herased).2 (by decide)

end Tomato64.Upgrade
