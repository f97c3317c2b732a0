import Tomato64.Core.Run
import Tomato64.Core.Split
import Tomato64.Core.Text

/-!
# Writing a backup profile

`nvram_save_new` walks the NUL-separated entries of the NVRAM image, draws a
key below thirty, and writes an eight-byte header followed by the masked image
padded to a multiple of 1024 bytes.  Separators and padding become random
bytes `0xfd..0xff`; every other byte is mirrored and shifted by the key.

The random source is the list of bytes that successive `get_rand` calls
return.  The output file accepts `room` bytes before a write fails.
-/

namespace Tomato64.ProfileSave

open List Run Split Text

def outfileNotWritable : ℤ := -2
def invalidCfgFormat : ℤ := -3

/-- `"HDR1"`. -/
def profileHeader : Bytes := [0x48, 0x44, 0x52, 0x31]

/-- `"HDR2"`. -/
def profileHeaderNew : Bytes := [0x48, 0x44, 0x52, 0x32]

def profileAlign : ℕ := 1024

/-- `MAX_NVRAM_SPACE` of the TOMATO64 build: the size of `outbuf` and of the
buffer of the command-line tool. -/
def maxNvramSpace : ℕ := 0x100000

/-- How a save ends other than by returning 0. -/
inductive SaveStop
  | status (code : ℤ)
  | readsBehindBuffer
  | writesBehindOutbuf
  | drawsEnded
  deriving DecidableEq, Repr

/-- The file given to `fopen(file, "wb")`. -/
structure OutFile where
  opens : Bool
  room : ℕ
  closes : Bool

/-- An open output stream: the bytes it still accepts and those written. -/
structure Stream where
  room : ℕ
  written : Bytes

def fopen (file : OutFile) : Except SaveStop Stream :=
  if file.opens then .ok ⟨file.room, []⟩
  else .error (.status outfileNotWritable)

def safeFwrite (data : Bytes) (stream : Stream) : Except SaveStop Stream :=
  if data.length ≤ stream.room then
    .ok ⟨stream.room - data.length, stream.written ++ data⟩
  else .error (.status outfileNotWritable)

/-- The bytes of the file when `fclose` succeeds. -/
def fclose (file : OutFile) (stream : Stream) : Except SaveStop Bytes :=
  if file.closes then .ok stream.written
  else .error (.status outfileNotWritable)

/-- Subtraction of `size_t` values, modulo `2^64`. -/
def sizeSub (left right : ℕ) : ℕ :=
  (left + (2 ^ 64 - right % 2 ^ 64)) % 2 ^ 64

/-- The counting loop over the entries.  It stops at an empty entry. -/
def countEntries (count : ℕ) (name : Bytes) : Except SaveStop ℕ :=
  match name with
  | [] => .error .readsBehindBuffer
  | first :: rest =>
    if first = 0 then .ok count
    else
      match hcut : splitFirst 0 (first :: rest) with
      | none => .error .readsBehindBuffer
      | some (entry, next) =>
        if count > sizeSub maxNvramSpace (entry.length + 1) then
          .error (.status invalidCfgFormat)
        else countEntries (count + (entry.length + 1)) next
  termination_by name.length
  decreasing_by
    have hlength := length_of_splitFirst hcut
    simp only [length_cons] at hlength ⊢
    omega

/-- `(count + (PROFILE_ALIGN - 1)) & ~(PROFILE_ALIGN - 1)`. -/
def alignedLength (count : ℕ) : ℕ :=
  (count + (profileAlign - 1)) / profileAlign * profileAlign

/-- The drawing loop: keys 8 to 13 are drawn again. -/
def drawKey : List Byte → Except SaveStop (Byte × List Byte)
  | [] => .error .drawsEnded
  | draw :: draws =>
    if 7 < draw % 30 ∧ draw % 30 < 14 then drawKey draws
    else .ok (draw % 30, draws)

/-- `0xfd + get_rand() % 3`. -/
def drawFiller : List Byte → Except SaveStop (Byte × List Byte)
  | [] => .error .drawsEnded
  | draw :: draws => .ok (0xfd + draw % 3, draws)

variable (filelen : ℕ)

/-- Byte `index` of `filelen`, least significant first. -/
def lengthByte (index : ℕ) : Byte :=
  UInt8.ofNat (filelen / 256 ^ index % 256)

def writeHeader (rand : Byte) (stream : Stream) :
    Except SaveStop Stream := do
  let stream ← safeFwrite profileHeaderNew stream
  let stream ← safeFwrite [lengthByte filelen 0] stream
  let stream ← safeFwrite [lengthByte filelen 1] stream
  let stream ← safeFwrite [lengthByte filelen 2] stream
  safeFwrite [rand] stream

def maskByte (rand char : Byte) : Byte :=
  0xff - char + rand

def maskImage (rand : Byte) :
    Bytes → List Byte → Except SaveStop (Bytes × List Byte)
  | [], draws => .ok ([], draws)
  | char :: chars, draws =>
    if char = 0 then do
      let (filler, draws) ← drawFiller draws
      let (masked, draws) ← maskImage rand chars draws
      return (filler :: masked, draws)
    else do
      let (masked, draws) ← maskImage rand chars draws
      return (maskByte rand char :: masked, draws)

/-- `outbuf[0..count)`. -/
def fillOutbuf (rand : Byte) (count : ℕ) (buf : Bytes) (draws : List Byte) :
    Except SaveStop (Bytes × List Byte) :=
  if maxNvramSpace < count then .error .writesBehindOutbuf
  else maskImage rand (buf.take count) draws

def writeOutbuf (count : ℕ) (outbuf : Bytes) (stream : Stream) :
    Except SaveStop Stream :=
  if 0 < count then safeFwrite outbuf stream else .ok stream

/-- The loop that writes the padding, one filler byte at a time. -/
def writePadding : ℕ → List Byte → Stream → Except SaveStop Stream
  | 0, _, stream => .ok stream
  | count + 1, draws, stream => do
      let (filler, draws) ← drawFiller draws
      let stream ← safeFwrite [filler] stream
      writePadding count draws stream

/-- `nvram_save_new`.  A result is the content of the closed file after the
function has returned 0. -/
def nvramSaveNew (file : OutFile) (buf : Bytes) (draws : List Byte) :
    Except SaveStop Bytes := do
  let stream ← fopen file
  let count ← countEntries 0 buf
  let (rand, draws) ← drawKey draws
  let stream ← writeHeader (alignedLength count) rand stream
  let (outbuf, draws) ← fillOutbuf rand count buf draws
  let stream ← writeOutbuf count outbuf stream
  let stream ← writePadding (alignedLength count - count) draws stream
  fclose file stream

/-! ## Images -/

/-- A string of the image.  An empty string would end it. -/
structure Entry where
  text : Bytes
  nonempty : text ≠ []
  nulFree : NulFree text

/-- The image as `nvram_getall` lays it out, without the empty string that
ends it. -/
def imageBytes (entries : List Entry) : Bytes :=
  entries.flatMap fun entry => entry.text ++ [0]

@[simp]
theorem imageBytes_nil : imageBytes [] = [] := rfl

theorem imageBytes_cons (entry : Entry) (entries : List Entry) :
    imageBytes (entry :: entries) = entry.text ++ 0 :: imageBytes entries := by
  simp [imageBytes]

theorem length_imageBytes_cons (entry : Entry) (entries : List Entry) :
    (imageBytes (entry :: entries)).length =
      entry.text.length + 1 + (imageBytes entries).length := by
  rw [imageBytes_cons, length_append, length_cons]
  omega

variable {entries : List Entry} {draws : List Byte} {rand : Byte}
  {next stream : Stream}

theorem imageBytes_length_eq_zero_iff :
    (imageBytes entries).length = 0 ↔ entries = [] := by
  cases entries with
  | nil => simp
  | cons entry entries =>
    rw [length_imageBytes_cons]
    simp

/-! ## Counting -/

section Counting

variable (entry : Entry) (rest : Bytes) (count : ℕ)

theorem countEntries_nul : countEntries count (0 :: rest) = .ok count := by
  rw [countEntries]
  simp

/-- One round of the counting loop on a non-empty string. -/
theorem countEntries_entry :
    countEntries count (entry.text ++ 0 :: rest) =
      if count > sizeSub maxNvramSpace (entry.text.length + 1) then
        .error (.status invalidCfgFormat)
      else countEntries (count + (entry.text.length + 1)) rest := by
  obtain ⟨text, hnonempty, hnulFree⟩ := entry
  cases text with
  | nil => exact absurd rfl hnonempty
  | cons first tail =>
    have hfirst : first ≠ 0 := by
      rintro rfl
      exact hnulFree mem_cons_self
    have hcut := splitFirst_append hnulFree rest
    rw [cons_append] at hcut ⊢
    rw [countEntries, if_neg hfirst]
    split
    · next hnone =>
      rw [hcut] at hnone
      cases hnone
    · next cutEntry cutNext hsome =>
      rw [hcut, Option.some.injEq, Prod.mk.injEq] at hsome
      obtain ⟨rfl, rfl⟩ := hsome
      rfl

end Counting

variable {count : ℕ}

/-- `count` stands for what the loop has counted so far. -/
theorem eq_of_countEntries_eq_ok {entries : List Entry} {stale : Bytes}
    {total : ℕ}
    (hcount : countEntries count (imageBytes entries ++ 0 :: stale) =
      .ok total) : total = count + (imageBytes entries).length := by
  induction entries generalizing count with
  | nil =>
    rw [imageBytes_nil, nil_append, countEntries_nul] at hcount
    cases hcount
    rfl
  | cons entry entries ih =>
    rw [imageBytes_cons, append_assoc, cons_append,
      countEntries_entry] at hcount
    split at hcount
    · cases hcount
    · rw [ih hcount, length_imageBytes_cons]
      omega

/-- An image that fits the buffer passes every check of the loop. -/
theorem countEntries_of_fits
    (hfits : count + (imageBytes entries).length ≤ maxNvramSpace)
    (stale : Bytes) :
    countEntries count (imageBytes entries ++ 0 :: stale) =
      .ok (count + (imageBytes entries).length) := by
  induction entries generalizing count with
  | nil => exact countEntries_nul stale count
  | cons entry entries ih =>
    rw [length_imageBytes_cons] at hfits ⊢
    have hsub : sizeSub maxNvramSpace (entry.text.length + 1) =
        maxNvramSpace - (entry.text.length + 1) := by
      have hspace : maxNvramSpace < 2 ^ 64 := by decide
      rw [sizeSub]
      omega
    rw [imageBytes_cons, append_assoc, cons_append,
      countEntries_entry, hsub, if_neg (by omega), ih (by omega)]
    congr 1
    omega

/-! ## Draws -/

variable {rest : List Byte}

theorem drawKey_lt (hdraw : drawKey draws = .ok (rand, rest)) : rand < 30 := by
  induction draws with
  | nil => cases hdraw
  | cons draw draws ih =>
    rw [drawKey] at hdraw
    split at hdraw
    · exact ih hdraw
    · cases hdraw
      exact UInt8.mod_lt draw (by decide)

/-- The bytes that stand for a separator or for padding. -/
def IsFiller (byte : Byte) : Prop :=
  0xfd ≤ byte

instance (byte : Byte) : Decidable (IsFiller byte) :=
  inferInstanceAs (Decidable (_ ≤ _))

theorem isFiller_add_mod (draw : Byte) : IsFiller (0xfd + draw % 3) := by
  rw [IsFiller, UInt8.le_iff_toNat_le, UInt8.toNat_add, UInt8.toNat_mod]
  simp only [UInt8.reduceToNat]
  omega

theorem isFiller_of_drawFiller {filler : Byte}
    (hdraw : drawFiller draws = .ok (filler, rest)) : IsFiller filler := by
  cases draws with
  | nil => cases hdraw
  | cons draw draws =>
    cases hdraw
    exact isFiller_add_mod draw

/-! ## The payload -/

/-- What the masking loop may write for a byte of the image. -/
def Masks (rand char byte : Byte) : Prop :=
  (char = 0 ∧ IsFiller byte) ∨ (char ≠ 0 ∧ byte = maskByte rand char)

theorem masks_of_maskImage {chars masked : Bytes}
    (hmask : maskImage rand chars draws = .ok (masked, rest)) :
    Forall₂ (Masks rand) chars masked := by
  induction chars generalizing draws masked with
  | nil =>
    cases hmask
    exact .nil
  | cons char chars ih =>
    rw [maskImage] at hmask
    split at hmask
    · next hchar =>
      obtain ⟨⟨filler, drawsLeft⟩, hfiller, hmask⟩ := bind_eq_ok_iff.1 hmask
      obtain ⟨⟨tail, _⟩, htail, hmask⟩ := bind_eq_ok_iff.1 hmask
      cases hmask
      exact .cons (.inl ⟨hchar, isFiller_of_drawFiller hfiller⟩)
        (ih htail)
    · next hchar =>
      obtain ⟨⟨tail, _⟩, htail, hmask⟩ := bind_eq_ok_iff.1 hmask
      cases hmask
      exact .cons (.inr ⟨hchar, rfl⟩) (ih htail)

/-- One draw for every separator is enough. -/
theorem exists_maskImage_eq_ok (rand : Byte) {chars : Bytes}
    (hdraws : chars.count 0 ≤ draws.length) :
    ∃ masked, maskImage rand chars draws =
      .ok (masked, draws.drop (chars.count 0)) := by
  induction chars generalizing draws with
  | nil => exact ⟨[], rfl⟩
  | cons char chars ih =>
    by_cases hchar : char = 0
    · subst char
      cases draws with
      | nil => simp at hdraws
      | cons draw draws =>
        rw [count_cons_self, length_cons, Nat.add_le_add_iff_right] at hdraws
        obtain ⟨masked, hmasked⟩ := ih hdraws
        refine ⟨(0xfd + draw % 3) :: masked, ?_⟩
        rw [maskImage, if_pos rfl, count_cons_self, drop_succ_cons]
        exact bind_eq_ok_iff.2 ⟨_, rfl, bind_eq_ok_iff.2 ⟨_, hmasked, rfl⟩⟩
    · rw [count_cons_of_ne hchar] at hdraws ⊢
      obtain ⟨masked, hmasked⟩ := ih hdraws
      refine ⟨maskByte rand char :: masked, ?_⟩
      rw [maskImage, if_neg hchar]
      exact bind_eq_ok_iff.2 ⟨_, hmasked, rfl⟩

/-! ## Writing -/

theorem written_of_safeFwrite {data : Bytes}
    (hwrite : safeFwrite data stream = .ok next) :
    next.written = stream.written ++ data := by
  rw [safeFwrite] at hwrite
  split at hwrite
  · cases hwrite
    rfl
  · cases hwrite

theorem safeFwrite_of_le {data : Bytes} (hroom : data.length ≤ stream.room) :
    safeFwrite data stream =
      .ok ⟨stream.room - data.length, stream.written ++ data⟩ :=
  if_pos hroom

def headerBytes (rand : Byte) : Bytes :=
  profileHeaderNew ++ [lengthByte filelen 0, lengthByte filelen 1,
    lengthByte filelen 2, rand]

theorem written_of_writeHeader {filelen : ℕ}
    (hwrite : writeHeader filelen rand stream = .ok next) :
    next.written = stream.written ++ headerBytes filelen rand := by
  simp only [writeHeader, bind_eq_ok_iff] at hwrite
  obtain ⟨_, h4, _, h5, _, h6, _, h7, h8⟩ := hwrite
  rw [written_of_safeFwrite h8, written_of_safeFwrite h7,
    written_of_safeFwrite h6, written_of_safeFwrite h5,
    written_of_safeFwrite h4]
  simp [headerBytes]

theorem exists_writeHeader_eq_ok (rand : Byte)
    (stream : Stream) (hroom : 8 ≤ stream.room) :
    ∃ next, writeHeader filelen rand stream = .ok next ∧
      next.room = stream.room - 8 := by
  simp only [writeHeader, bind_eq_ok_iff]
  refine ⟨_, ⟨_, safeFwrite_of_le ?_, _, safeFwrite_of_le ?_, _,
    safeFwrite_of_le ?_, _, safeFwrite_of_le ?_, safeFwrite_of_le ?_⟩, ?_⟩
  all_goals simp only [profileHeaderNew, length_cons, length_nil]
  all_goals omega

theorem written_of_writePadding
    (hwrite : writePadding count draws stream = .ok next) :
    ∃ padding, next.written = stream.written ++ padding ∧
      padding.length = count ∧ ∀ byte ∈ padding, IsFiller byte := by
  induction count generalizing draws stream with
  | zero =>
    cases hwrite
    exact ⟨[], by simp⟩
  | succ count ih =>
    obtain ⟨⟨filler, drawsLeft⟩, hfiller, hwrite⟩ := bind_eq_ok_iff.1 hwrite
    obtain ⟨middle, hmiddle, hwrite⟩ := bind_eq_ok_iff.1 hwrite
    obtain ⟨padding, hwritten, hlength, hpadding⟩ := ih hwrite
    refine ⟨filler :: padding, ?_, by simp [hlength], ?_⟩
    · rw [hwritten, written_of_safeFwrite hmiddle]
      simp
    · intro byte hbyte
      rcases mem_cons.1 hbyte with rfl | hbyte
      · exact isFiller_of_drawFiller hfiller
      · exact hpadding byte hbyte

theorem exists_writePadding_eq_ok (stream : Stream)
    (hdraws : count ≤ draws.length) (hroom : count ≤ stream.room) :
    ∃ next, writePadding count draws stream = .ok next := by
  induction count generalizing draws stream with
  | zero => exact ⟨stream, rfl⟩
  | succ count ih =>
    cases draws with
    | nil => simp at hdraws
    | cons draw draws =>
      rw [length_cons, Nat.add_le_add_iff_right] at hdraws
      have hwrite : safeFwrite [0xfd + draw % 3] stream = .ok _ :=
        safeFwrite_of_le (by rw [length_singleton]; omega)
      obtain ⟨next, hnext⟩ := ih
        ⟨stream.room - 1, stream.written ++ [0xfd + draw % 3]⟩
        hdraws (Nat.le_sub_one_of_lt hroom)
      exact ⟨next, bind_eq_ok_iff.2 ⟨_, rfl,
        bind_eq_ok_iff.2 ⟨_, hwrite, hnext⟩⟩⟩

/-! ## The saved file -/

/-- A file that `nvram_save_new` may leave for an image under a key. -/
structure IsProfile (rand : Byte) (image file : Bytes) : Prop where
  key_lt : rand < 30
  fits : image.length ≤ maxNvramSpace
  layout : ∃ masked padding,
    file = headerBytes (alignedLength image.length) rand ++
      (masked ++ padding) ∧
    Forall₂ (Masks rand) image masked ∧
    padding.length = alignedLength image.length - image.length ∧
    ∀ byte ∈ padding, IsFiller byte

theorem written_of_writeOutbuf {outbuf : Bytes}
    (houtbuf : outbuf.length = count)
    (hwrite : writeOutbuf count outbuf stream = .ok next) :
    next.written = stream.written ++ outbuf := by
  rw [writeOutbuf] at hwrite
  split at hwrite
  · exact written_of_safeFwrite hwrite
  · next hcount =>
    cases hwrite
    have hempty : outbuf = [] := eq_nil_of_length_eq_zero (by omega)
    rw [hempty, append_nil]

theorem exists_writeOutbuf_eq_ok (count : ℕ) (outbuf : Bytes)
    (stream : Stream) (hroom : outbuf.length ≤ stream.room) :
    ∃ next, writeOutbuf count outbuf stream = .ok next ∧
      stream.room - outbuf.length ≤ next.room := by
  rw [writeOutbuf]
  split
  · exact ⟨_, safeFwrite_of_le hroom, le_refl _⟩
  · exact ⟨stream, rfl, Nat.sub_le _ _⟩

theorem le_alignedLength (count : ℕ) : count ≤ alignedLength count := by
  rw [alignedLength, profileAlign]
  omega

/-- Whatever is drawn, a successful save leaves a profile of the image under
the drawn key. -/
theorem isProfile_of_nvramSaveNew {out : OutFile} {entries : List Entry}
    {stale file : Bytes} {draws : List Byte}
    (hsave : nvramSaveNew out (imageBytes entries ++ 0 :: stale) draws =
      .ok file) :
    ∃ rand rest, drawKey draws = .ok (rand, rest) ∧
      IsProfile rand (imageBytes entries) file := by
  simp only [nvramSaveNew, bind_eq_ok_iff] at hsave
  obtain ⟨opened, hopen, count, hcount, ⟨rand, rest⟩, hkey, headed, hheader,
    ⟨outbuf, drawsLeft⟩, hfill, filled, houtbuf, padded, hpadding, hclose⟩ :=
    hsave
  have htotal := eq_of_countEntries_eq_ok hcount
  rw [Nat.zero_add] at htotal
  subst count
  rw [fillOutbuf] at hfill
  split at hfill
  · cases hfill
  next hfits =>
  rw [take_left] at hfill
  have hmasks := masks_of_maskImage hfill
  obtain ⟨padding, hwritten, hlength, hfiller⟩ :=
    written_of_writePadding hpadding
  refine ⟨rand, rest, hkey, drawKey_lt hkey, by omega, outbuf, padding, ?_,
    hmasks, hlength, hfiller⟩
  have hopened : opened.written = [] := by
    rw [fopen] at hopen
    split at hopen <;> cases hopen
    rfl
  have hfile : file = padded.written := by
    rw [fclose] at hclose
    split at hclose <;> cases hclose
    rfl
  rw [hfile, hwritten, written_of_writeOutbuf hmasks.length_eq.symm houtbuf,
    written_of_writeHeader hheader, hopened]
  simp

/-- A save succeeds when the image fits, the file can be written, and the
random source delivers a key and a byte for every separator and filler. -/
theorem exists_nvramSaveNew_eq_ok {out : OutFile} {draws : List Byte}
    {rand : Byte} (entries : List Entry) (stale : Bytes)
    (hopens : out.opens = true) (hcloses : out.closes = true)
    (hfits : (imageBytes entries).length ≤ maxNvramSpace)
    (hroom : 8 + alignedLength (imageBytes entries).length ≤ out.room)
    (hkey : drawKey draws = .ok (rand, rest))
    (hdraws : (imageBytes entries).count 0 +
      (alignedLength (imageBytes entries).length -
        (imageBytes entries).length) ≤ rest.length) :
    ∃ file, nvramSaveNew out (imageBytes entries ++ 0 :: stale) draws =
      .ok file := by
  have haligned := le_alignedLength (imageBytes entries).length
  have hopen : fopen out = .ok ⟨out.room, []⟩ := if_pos hopens
  have hcount : countEntries 0 (imageBytes entries ++ 0 :: stale) =
      .ok (imageBytes entries).length := by
    have hzero : 0 + (imageBytes entries).length ≤ maxNvramSpace := by omega
    simpa only [Nat.zero_add] using countEntries_of_fits hzero stale
  obtain ⟨headed, hheader, hheadedRoom⟩ :=
    exists_writeHeader_eq_ok (alignedLength (imageBytes entries).length) rand
      ⟨out.room, []⟩ (Nat.le_of_add_right_le hroom)
  obtain ⟨masked, hmasked⟩ :=
    exists_maskImage_eq_ok rand (Nat.le_of_add_right_le hdraws)
  have hlength := (masks_of_maskImage hmasked).length_eq
  simp only at hheadedRoom
  have hfill : fillOutbuf rand (imageBytes entries).length
      (imageBytes entries ++ 0 :: stale) rest =
        .ok (masked, rest.drop ((imageBytes entries).count 0)) := by
    rw [fillOutbuf, if_neg (by omega), take_left, hmasked]
  obtain ⟨filled, hfilled, hfilledRoom⟩ :=
    exists_writeOutbuf_eq_ok (imageBytes entries).length masked headed
      (by omega)
  have hleft : alignedLength (imageBytes entries).length -
      (imageBytes entries).length ≤
        (rest.drop ((imageBytes entries).count 0)).length := by
    rw [length_drop]
    omega
  obtain ⟨padded, hpadded⟩ := exists_writePadding_eq_ok filled hleft (by omega)
  have hclose : fclose out padded = .ok padded.written := if_pos hcloses
  refine ⟨padded.written, ?_⟩
  simp only [nvramSaveNew, bind_eq_ok_iff]
  exact ⟨_, hopen, _, hcount, _, hkey, _, hheader, _, hfill, _, hfilled, _,
    hpadded, hclose⟩

end Tomato64.ProfileSave
