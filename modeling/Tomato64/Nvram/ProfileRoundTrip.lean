import Tomato64.Nvram.ProfileRestore

/-!
# Saving a profile and restoring it

A saved file is loaded again when its padded length fits the restoring
buffer.  Its variables come back when no byte of a value is masked into the
range `0xfd..0xff` that stands for a separator.
-/

namespace Tomato64.ProfileRoundTrip

open List ProfileSave Split Text
open ProfileRestore

theorem readLe_lengthBytes {filelen : ℕ} (hlength : filelen < 2 ^ 24) :
    readLe [lengthByte filelen 0, lengthByte filelen 1,
      lengthByte filelen 2] = filelen := by
  have hbyte (index : ℕ) :
      (lengthByte filelen index).toNat = filelen / 256 ^ index % 256 := by
    rw [lengthByte, UInt8.toNat_ofNat']
    exact Nat.mod_eq_of_lt (Nat.mod_lt _ (by decide))
  simp only [readLe, hbyte]
  omega

theorem alignedLength_le {count : ℕ} (hcount : count ≤ maxNvramSpace) :
    alignedLength count ≤ maxNvramSpace := by
  simp only [alignedLength, profileAlign, maxNvramSpace] at hcount ⊢
  omega

/-- A file with the header of the newer format is taken apart as it was put
together. -/
theorem loadProfile_headerBytes {filelen buflen : ℕ}
    (hlength : filelen < 2 ^ 24) (hbuflen : 2 ≤ buflen) (rand : Byte)
    (body : Bytes) :
    loadProfile (.content (headerBytes filelen rand ++ body)) buflen =
      (loadBody filelen buflen body).map (unmask rand none) := by
  have hread : readLe (((headerBytes filelen rand).drop 4).take 3) = filelen :=
    readLe_lengthBytes hlength
  have htake : (headerBytes filelen rand ++ body).take 8 =
      headerBytes filelen rand := take_left' rfl
  have hdrop : (headerBytes filelen rand ++ body).drop 8 = body :=
    drop_left' rfl
  have hmagic : (headerBytes filelen rand).take 4 = profileHeaderNew := rfl
  have hsize : (headerBytes filelen rand).length = 8 := rfl
  have hkey : (headerBytes filelen rand).getD 7 0 = rand := rfl
  have hnew : profileHeaderNew ≠ profileHeader := by decide
  simp only [loadProfile, htake, hdrop, hmagic, hsize, hkey, hread, hnew,
    Nat.not_lt.2 hbuflen, lt_irrefl, if_true, if_false]
  cases loadBody filelen buflen body <;> rfl

section Load

variable {rand : Byte} {image masked padding : Bytes}
variable (hmasks : Forall₂ (Masks rand) image masked)
variable (hpadding : padding.length =
  alignedLength image.length - image.length)

include hmasks hpadding

/-- Loading a saved file comes down to the length check. -/
theorem loadProfile_profile (hfits : image.length ≤ maxNvramSpace)
    {buflen : ℕ} (hbuflen : 2 ≤ buflen) :
    loadProfile (.content (headerBytes (alignedLength image.length) rand ++
        (masked ++ padding))) buflen =
      if alignedLength image.length = 0 ∨
          buflen ≤ alignedLength image.length then
        .error invalidCfgFormat
      else .ok (unmask rand none (masked ++ padding)) := by
  have hlength : (masked ++ padding).length = alignedLength image.length := by
    have haligned := le_alignedLength image.length
    rw [length_append, ← hmasks.length_eq, hpadding]
    omega
  have haligned : alignedLength image.length < 2 ^ 24 :=
    Nat.lt_of_le_of_lt (alignedLength_le hfits) (by decide)
  rw [loadProfile_headerBytes haligned hbuflen, loadBody]
  split
  · rfl
  · rw [if_neg (by omega), ← hlength, take_length]
    rfl

end Load

/-! ## Which files are accepted -/

/-- The restore got past the header and the size checks. -/
def Accepted (outcome : Outcome) : Prop :=
  outcome.status ≠ some infileNotReadable ∧
    outcome.status ≠ some invalidCfgFormat

theorem not_accepted_of_loadProfile {file : InFile} {prior : Bytes}
    (hload : loadProfile file prior.length = .error invalidCfgFormat)
    (ofp : Bool) : ¬ Accepted (nvramRestoreNew file prior ofp) := by
  rw [nvramRestoreNew_of_error hload]
  exact fun haccepted => haccepted.2 rfl

theorem two_le_of_accepted {file : InFile} {prior : Bytes} {ofp : Bool}
    (haccepted : Accepted (nvramRestoreNew file prior ofp)) :
    2 ≤ prior.length := by
  by_contra hsmall
  refine not_accepted_of_loadProfile ?_ ofp haccepted
  rw [loadProfile.eq_def, if_pos (by omega)]

theorem printed_entryCalls_le (ofp : Bool) (text : Bytes) :
    ((entryCalls ofp text).map Call.printed).sum ≤ text.length + 2 := by
  rw [entryCalls]
  split
  · next name value hcut =>
    have hlength := length_of_splitFirst hcut
    cases ofp
    · simp [Call.printed]
    · simp [Call.printed]
      omega
  · cases ofp <;> simp [Call.printed]

/-- A walk prints at most two bytes for each byte of the buffer. -/
theorem printed_walk_le (ofp : Bool) (memory : Bytes) :
    ((walk ofp memory).calls.map Call.printed).sum ≤ 2 * memory.length := by
  fun_induction walk ofp memory with
  | case1 => simp
  | case2 => simp
  | case3 char rest hnul hskip ih =>
    simp only [Walk.after, nil_append, length_cons]
    omega
  | case4 => simp
  | case5 char rest hnul hskip text next hcut ih =>
    have hentry := printed_entryCalls_le ofp text
    have hlength := length_of_splitFirst hcut
    simp only [Walk.after, map_append, sum_append, hlength]
    omega

/-- A loaded file is accepted: its walk returns no error code. -/
theorem accepted_of_loadProfile {file : InFile} {prior text : Bytes}
    (hload : loadProfile file prior.length = .ok text)
    (hprior : prior.length ≤ maxNvramSpace) (ofp : Bool) :
    Accepted (nvramRestoreNew file prior ofp) := by
  have hlength := length_lt_of_loadProfile hload
  have hcount : 0 ≤ printedCount (walk ofp
      (text ++ 0 :: prior.drop (text.length + 1))).calls := by
    have hprinted := printed_walk_le ofp
      (text ++ 0 :: prior.drop (text.length + 1))
    rw [length_append, length_cons, length_drop] at hprinted
    rw [maxNvramSpace] at hprior
    rw [printedCount, BitVec.toInt_eq_toNat_cond, BitVec.toNat_ofNat]
    split <;> omega
  rw [nvramRestoreNew_of_ok hload, Accepted]
  simp only [infileNotReadable, invalidCfgFormat]
  split
  · constructor <;>
      · intro hstatus
        rw [Option.some.injEq] at hstatus
        omega
  · simp

/-- A saved file is refused when its padded length is zero or reaches the
size of the buffer, and loaded otherwise. -/
theorem loadProfile_of_nvramSaveNew {out : OutFile} {entries : List Entry}
    {stale file : Bytes} {draws : List Byte} {buflen : ℕ}
    (hsave : nvramSaveNew out (imageBytes entries ++ 0 :: stale) draws =
      .ok file) (hbuflen : 2 ≤ buflen) :
    ∃ text, loadProfile (.content file) buflen =
      if alignedLength (imageBytes entries).length = 0 ∨
          buflen ≤ alignedLength (imageBytes entries).length then
        .error invalidCfgFormat
      else .ok text := by
  obtain ⟨rand, _, _, _, hlimit, masked, padding, rfl, hmasks, hpadding, _⟩ :=
    isProfile_of_nvramSaveNew hsave
  exact ⟨_, loadProfile_profile hmasks hpadding hlimit hbuflen⟩

/-- Among the images that can be saved, those whose file can be restored into
a buffer of the same size are the non-empty ones of at most
`MAX_NVRAM_SPACE - 1024` bytes. -/
theorem accepted_restore_iff {out : OutFile} {entries : List Entry}
    {stale file prior : Bytes} {draws : List Byte} (ofp : Bool)
    (hsave : nvramSaveNew out (imageBytes entries ++ 0 :: stale) draws =
      .ok file)
    (hprior : prior.length = maxNvramSpace) :
    Accepted (nvramRestoreNew (.content file) prior ofp) ↔
      entries ≠ [] ∧
        (imageBytes entries).length ≤ maxNvramSpace - profileAlign := by
  have hbuflen : 2 ≤ prior.length := by
    rw [hprior]
    decide
  obtain ⟨text, hload⟩ := loadProfile_of_nvramSaveNew hsave hbuflen
  have hcheck : (alignedLength (imageBytes entries).length = 0 ∨
      prior.length ≤ alignedLength (imageBytes entries).length) ↔
        ¬ (entries ≠ [] ∧
          (imageBytes entries).length ≤ maxNvramSpace - profileAlign) := by
    rw [hprior, ne_eq, ← imageBytes_length_eq_zero_iff]
    simp only [alignedLength, profileAlign, maxNvramSpace]
    omega
  split at hload
  · next hrefused =>
    exact iff_of_false (not_accepted_of_loadProfile hload ofp)
      (hcheck.1 hrefused)
  · next hloaded =>
    exact iff_of_true (accepted_of_loadProfile hload hprior.le ofp)
      (not_not.1 (hcheck.not.1 hloaded))

/-- The entry `a=b`. -/
def smallEntry : Entry :=
  ⟨[97, 61, 98], by decide, by decide⟩

theorem accepted_restore_small :
    ∃ file, nvramSaveNew ⟨true, 2000, true⟩ (imageBytes [smallEntry] ++ [0])
        (replicate 1100 0) = .ok file ∧
      (Accepted (nvramRestoreNew (.content file)
          (replicate maxNvramSpace 0) false) ↔
        [smallEntry] ≠ [] ∧
          (imageBytes [smallEntry]).length ≤
            maxNvramSpace - profileAlign) := by
  obtain ⟨file, hfile⟩ := exists_nvramSaveNew_eq_ok [smallEntry] []
    (rfl : (⟨true, 2000, true⟩ : OutFile).opens = true) rfl
    (by decide) (by decide)
    (rfl : drawKey (replicate 1100 0) = .ok (0, replicate 1099 0))
    (by rw [length_replicate]; decide)
  exact ⟨file, hfile, accepted_restore_iff false hfile length_replicate⟩

/-- The variable `a` with a value of `count` letters. -/
def longEntry (count : ℕ) : Entry where
  text := 97 :: 61 :: replicate count 120
  nonempty := List.cons_ne_nil _ _
  nulFree := by simp [NulFree]

theorem length_imageBytes_longEntry (count : ℕ) :
    (imageBytes [longEntry count]).length = count + 3 := by
  simp [imageBytes, longEntry]

/-- An image that fills the buffer with the NUL that ends it. -/
def fullImage : List Entry :=
  [longEntry (maxNvramSpace - 4)]

/-- A full buffer is saved, but no buffer of the same size takes the file
back. -/
theorem restore_refuses_fullImage :
    (imageBytes fullImage ++ [0]).length = maxNvramSpace ∧
      ∃ file, nvramSaveNew ⟨true, maxNvramSpace + 8, true⟩
          (imageBytes fullImage ++ [0]) [0, 0, 0] = .ok file ∧
        ∀ prior : Bytes, prior.length = maxNvramSpace →
          nvramRestoreNew (.content file) prior false =
            ⟨some invalidCfgFormat, [], 0, 0⟩ := by
  have hlength : (imageBytes fullImage).length = maxNvramSpace - 1 := by
    rw [fullImage, length_imageBytes_longEntry]
    decide
  have haligned : alignedLength (imageBytes fullImage).length =
      maxNvramSpace := by
    rw [hlength]
    decide
  have hcount : (imageBytes fullImage).count 0 = 1 := by
    rw [fullImage, imageBytes_cons, count_append,
      count_eq_zero.2 (longEntry _).nulFree]
    rfl
  obtain ⟨file, hfile⟩ := exists_nvramSaveNew_eq_ok fullImage []
    (rfl : (⟨true, maxNvramSpace + 8, true⟩ : OutFile).opens = true) rfl
    (by rw [hlength]; decide) (by rw [haligned]; decide)
    (rfl : drawKey [0, 0, 0] = .ok (0, [0, 0]))
    (by rw [haligned, hcount, hlength]; decide)
  refine ⟨?_, file, hfile, ?_⟩
  · rw [length_append, hlength]
    decide
  intro prior hprior
  have hbuflen : 2 ≤ prior.length := by
    rw [hprior]
    decide
  obtain ⟨text, hload⟩ := loadProfile_of_nvramSaveNew hfile hbuflen
  rw [if_pos (.inr (by rw [haligned, hprior]))] at hload
  exact nvramRestoreNew_of_error hload false

/-! ## Removing the mask -/

/-- The bytes that a key masks into the range of the fillers. -/
def Collides (rand char : Byte) : Prop :=
  rand ≤ char ∧ char ≤ rand + 2

instance (rand char : Byte) : Decidable (Collides rand char) :=
  inferInstanceAs (Decidable (_ ∧ _))

theorem isFiller_maskByte_iff {rand : Byte} (hrand : rand < 30)
    (char : Byte) : IsFiller (maskByte rand char) ↔ Collides rand char := by
  rw [UInt8.lt_iff_toNat_lt] at hrand
  have hchar := char.toNat_lt
  rw [IsFiller, Collides, maskByte]
  simp only [UInt8.le_iff_toNat_le, UInt8.toNat_add, UInt8.toNat_sub,
    UInt8.reduceToNat] at hrand ⊢
  omega

theorem unmask_maskByte (rand char : Byte) :
    0xff + rand - maskByte rand char = char := by
  have hchar := char.toNat_lt
  apply UInt8.toNat_inj.1
  simp only [maskByte, UInt8.toNat_add, UInt8.toNat_sub, UInt8.reduceToNat]
  omega

theorem unmask_filler {byte char : Byte} (hbyte : IsFiller byte)
    (hchar : char ≠ 0) (rand : Byte) (rest : Bytes) :
    unmask rand (some char) (byte :: rest) =
      0 :: unmask rand (some 0) rest := by
  have hfiller : 0xfd ≤ byte := hbyte
  simp [unmask, hfiller, hchar]

section Unmask

variable {rand : Byte} (hrand : rand < 30)

include hrand

theorem unmask_clean {char byte : Byte} (hbyte : Masks rand char byte)
    (hnul : char ≠ 0) (hclean : ¬ Collides rand char) (prev : Option Byte)
    (rest : Bytes) :
    unmask rand prev (byte :: rest) = char :: unmask rand (some char) rest := by
  obtain rfl : byte = maskByte rand char := by
    rcases hbyte with ⟨hzero, _⟩ | ⟨_, hbyte⟩
    · exact absurd hzero hnul
    · exact hbyte
  rw [← isFiller_maskByte_iff hrand, IsFiller] at hclean
  simp only [unmask, if_neg hclean, unmask_maskByte]

/-- A text without colliding bytes comes back, and the filler behind it ends
it.  The filler may stand for a separator or for a byte that collides. -/
theorem unmask_text {char byte : Byte} {tail masked : Bytes}
    (htext : NulFree (char :: tail))
    (hmasks : Forall₂ (Masks rand) (char :: tail) masked)
    (hclean : ∀ other ∈ char :: tail, ¬ Collides rand other)
    (hbyte : IsFiller byte) (prev : Option Byte) (rest : Bytes) :
    unmask rand prev (masked ++ byte :: rest) =
      char :: (tail ++ 0 :: unmask rand (some 0) rest) := by
  induction tail generalizing char masked prev with
  | nil =>
    obtain ⟨hnul, _⟩ := nulFree_cons.1 htext
    have hchar := hclean char mem_cons_self
    cases hmasks with
    | cons hhead hnil =>
      cases hnil
      rw [cons_append, unmask_clean hrand hhead hnul hchar,
        nil_append, unmask_filler hbyte hnul]
      rfl
  | cons next tail ih =>
    obtain ⟨hnul, htext⟩ := nulFree_cons.1 htext
    obtain ⟨hchar, hclean⟩ := forall_mem_cons.1 hclean
    cases hmasks with
    | cons hhead hmasks =>
      rw [cons_append, unmask_clean hrand hhead hnul hchar,
        ih htext hmasks hclean]
      rfl

end Unmask

/-- Padding behind a separator makes no calls: its first byte is kept and
skipped, and the second one is read as a NUL. -/
theorem calls_walk_padding {padding : Bytes}
    (hpadding : ∀ byte ∈ padding, IsFiller byte) (rand : Byte) (stale : Bytes) :
    (walk false (unmask rand (some 0) padding ++ 0 :: stale)).calls = [] := by
  cases padding with
  | nil => simp [unmask]
  | cons byte padding =>
    obtain ⟨hbyte, hpadding⟩ := forall_mem_cons.1 hpadding
    have hfiller : 0xfd ≤ byte := hbyte
    have hnul : byte ≠ 0 := by
      rintro rfl
      exact absurd hbyte (by decide)
    have hskip : ¬ IsText byte := by
      rintro ⟨_, hlow⟩
      exact absurd (UInt8.le_trans hfiller hlow) (by decide)
    have hkept : unmask rand (some 0) (byte :: padding) =
        byte :: unmask rand (some byte) padding := by
      simp [unmask, hfiller]
    rw [hkept, cons_append, walk_skip false hnul hskip]
    cases padding with
    | nil => simp [unmask, Walk.after]
    | cons next padding =>
      rw [unmask_filler (hpadding next mem_cons_self) hnul]
      simp [Walk.after]

/-! ## Variables -/

/-- A variable of the store: a printable name without `=`, and any C string as
value. -/
structure Variable where
  name : Bytes
  value : Bytes
  printable : ∀ char ∈ name, 32 ≤ char ∧ char ≤ 126
  noEquals : (61 : Byte) ∉ name
  nulFree : NulFree value

namespace Variable

variable (saved : Variable)

def text : Bytes :=
  saved.name ++ 61 :: saved.value

theorem nulFree_name : NulFree saved.name := by
  intro hnul
  exact absurd (saved.printable 0 hnul).1 (by decide)

def entry : Entry where
  text := saved.text
  nonempty := by simp [text]
  nulFree := nulFree_append.2 ⟨saved.nulFree_name,
    nulFree_cons.2 ⟨by decide, saved.nulFree⟩⟩

/-- The pair given to `nvram_set`. -/
def pair : Bytes × Bytes :=
  (saved.name, saved.value)

/-- A text that begins with the name and `=` begins an entry. -/
theorem exists_isText_cons (value : Bytes) :
    ∃ char tail, saved.name ++ 61 :: value = char :: tail ∧ IsText char := by
  cases hname : saved.name with
  | nil => exact ⟨61, value, rfl, by decide⟩
  | cons char tail =>
    obtain ⟨hlow, hhigh⟩ := saved.printable char
      (hname ▸ mem_cons_self)
    exact ⟨char, tail ++ 61 :: value, rfl, hlow,
      UInt8.le_trans hhigh (by decide)⟩

end Variable

/-- The pairs given to `nvram_set`, in order. -/
def setCalls (calls : List Call) : List (Bytes × Bytes) :=
  calls.filterMap fun
    | .set name value => some (name, value)
    | _ => none

section Variables

variable {rand : Byte} (hrand : rand < 30)

include hrand

theorem not_collides_of_le {char : Byte} (hchar : 32 ≤ char) :
    ¬ Collides rand char := by
  rintro ⟨_, hhigh⟩
  rw [UInt8.le_iff_toNat_le] at hchar hhigh
  rw [UInt8.lt_iff_toNat_lt] at hrand
  simp only [UInt8.toNat_add, UInt8.reduceToNat] at hrand hchar hhigh
  omega

/-- The part of a variable before a filler is set as a variable of its own. -/
theorem setCalls_walk_value (saved : Variable) {value masked : Bytes}
    {byte : Byte} (hvalue : NulFree value)
    (hmasks : Forall₂ (Masks rand) (saved.name ++ 61 :: value) masked)
    (hclean : ∀ char ∈ value, ¬ Collides rand char) (hbyte : IsFiller byte)
    (prev : Option Byte) (rest stale : Bytes) :
    setCalls (walk false
        (unmask rand prev (masked ++ byte :: rest) ++ 0 :: stale)).calls =
      (saved.name, value) :: setCalls (walk false
        (unmask rand (some 0) rest ++ 0 :: stale)).calls := by
  have hfree : NulFree (saved.name ++ 61 :: value) :=
    nulFree_append.2 ⟨saved.nulFree_name, nulFree_cons.2 ⟨by decide, hvalue⟩⟩
  have hall : ∀ char ∈ saved.name ++ 61 :: value,
      ¬ Collides rand char := by
    intro char hchar
    rcases mem_append.1 hchar with hname | hrest
    · exact not_collides_of_le hrand (saved.printable char hname).1
    rcases mem_cons.1 hrest with rfl | hvalue
    · exact not_collides_of_le hrand (by decide)
    · exact hclean char hvalue
  have hcalls : entryCalls false (saved.name ++ 61 :: value) =
      [.set saved.name value] := by
    rw [entryCalls, splitFirst_append saved.noEquals]
    rfl
  obtain ⟨char, tail, htext, hchar⟩ := saved.exists_isText_cons value
  rw [htext] at hfree hmasks hall hcalls
  rw [unmask_text hrand hfree hmasks hall hbyte, cons_append, append_assoc,
    cons_append, walk_entry false hchar (nulFree_cons.1 hfree).2, hcalls]
  rfl

/-- A colliding byte cuts the value off, so that the first call is not the
saved pair. -/
theorem setCalls_walk_ne (saved : Variable) {masked : Bytes}
    (hmasks : Forall₂ (Masks rand) saved.text masked)
    (hcollides : ∃ char ∈ saved.value, Collides rand char)
    (prev : Option Byte) (rest stale : Bytes) (pairs : List (Bytes × Bytes)) :
    setCalls (walk false
        (unmask rand prev (masked ++ rest) ++ 0 :: stale)).calls ≠
      saved.pair :: pairs := by
  obtain ⟨front, char, back, hvalue, hchar, hfront⟩ := exists_first hcollides
  obtain ⟨hfrontFree, htailFree⟩ := nulFree_append.1 (hvalue ▸ saved.nulFree)
  have htext : saved.text = (saved.name ++ 61 :: front) ++ char :: back := by
    simp [Variable.text, hvalue]
  rw [htext] at hmasks
  obtain ⟨before, behind, hbefore, hbehind, rfl⟩ :=
    exists_append_of_forall₂ hmasks
  obtain ⟨byte, after, hmask, _, rfl⟩ := forall₂_cons_left_iff.1 hbehind
  have hbyte : IsFiller byte := by
    rcases hmask with ⟨hzero, _⟩ | ⟨_, rfl⟩
    · exact absurd hzero (nulFree_cons.1 htailFree).1
    · exact (isFiller_maskByte_iff hrand char).2 hchar
  rw [append_assoc, cons_append,
    setCalls_walk_value hrand saved hfrontFree hbefore hfront hbyte]
  intro hequal
  have hcut := congrArg List.length
    (congrArg Prod.snd (List.cons.inj hequal).1)
  simp [Variable.pair, hvalue] at hcut

/-- Each variable comes back until the first one whose value collides. -/
theorem setCalls_walk_iff {image : List Variable} {masked padding : Bytes}
    (hmasks : Forall₂ (Masks rand)
      (imageBytes (image.map Variable.entry)) masked)
    (hpadding : ∀ byte ∈ padding, IsFiller byte) (stale : Bytes)
    {prev : Option Byte} (hprev : image = [] → prev = some 0) :
    setCalls (walk false
        (unmask rand prev (masked ++ padding) ++ 0 :: stale)).calls =
      image.map Variable.pair ↔
    ∀ saved ∈ image, ∀ char ∈ saved.value, ¬ Collides rand char := by
  induction image generalizing prev masked with
  | nil =>
    cases hmasks
    rw [hprev rfl, nil_append, calls_walk_padding hpadding]
    simp [setCalls]
  | cons saved image ih =>
    rw [map_cons, imageBytes_cons] at hmasks
    obtain ⟨entry, behind, hentry, hbehind, rfl⟩ :=
      exists_append_of_forall₂ hmasks
    rw [map_cons, forall_mem_cons, append_assoc]
    by_cases hclean : ∀ char ∈ saved.value, ¬ Collides rand char
    · obtain ⟨filler, rest, hfiller, hrest, rfl⟩ :=
        forall₂_cons_left_iff.1 hbehind
      have hbyte : IsFiller filler := by
        rcases hfiller with ⟨_, hbyte⟩ | ⟨hzero, _⟩
        · exact hbyte
        · exact absurd rfl hzero
      rw [cons_append,
        setCalls_walk_value hrand saved saved.nulFree hentry hclean hbyte,
        Variable.pair, List.cons.injEq, ih hrest fun _ => rfl,
        and_iff_right rfl, and_iff_right hclean]
    · apply iff_of_false
      · push Not at hclean
        exact setCalls_walk_ne hrand saved hentry hclean _ _ _ _
      · exact fun hboth => hclean hboth.1

end Variables

/-- The restore sets exactly the saved variables, in order, when and only
when no byte of a value lies among the three bytes from the drawn key on. -/
theorem setCalls_restore_iff {out : OutFile} {image : List Variable}
    {stale file prior : Bytes} {draws rest : List Byte} {rand : Byte}
    (hsave : nvramSaveNew out
      (imageBytes (image.map Variable.entry) ++ 0 :: stale) draws = .ok file)
    (hkey : drawKey draws = .ok (rand, rest))
    (haccepted : Accepted (nvramRestoreNew (.content file) prior false)) :
    setCalls (nvramRestoreNew (.content file) prior false).calls =
        image.map Variable.pair ↔
      ∀ saved ∈ image, ∀ char ∈ saved.value, ¬ Collides rand char := by
  obtain ⟨_, _, hdrawn, hrand, hlimit, masked, padding, rfl, hmasks, hlength,
    hpadding⟩ := isProfile_of_nvramSaveNew hsave
  rw [hkey, Except.ok.injEq, Prod.mk.injEq] at hdrawn
  obtain ⟨rfl, rfl⟩ := hdrawn
  have hload := loadProfile_profile hmasks hlength hlimit
    (two_le_of_accepted haccepted)
  split at hload
  · exact absurd haccepted (not_accepted_of_loadProfile hload false)
  next hsize =>
  have hnonempty : image ≠ [] := by
    rintro rfl
    exact hsize (.inl rfl)
  rw [nvramRestoreNew_of_ok hload]
  exact setCalls_walk_iff hrand hmasks hpadding _ fun hempty =>
    absurd hempty hnonempty

/-- The variable `a` with the value `x`, tab, `y`. -/
def tabVariable : Variable :=
  ⟨[97], [120, 9, 121], by decide, by decide, by decide⟩

/-- A key that leaves a tab alone. -/
theorem setCalls_restore_tab :
    ∃ file, nvramSaveNew ⟨true, 2000, true⟩
        (imageBytes ([tabVariable].map Variable.entry) ++ [0])
        (replicate 1100 0) = .ok file ∧
      (setCalls (nvramRestoreNew (.content file)
          (replicate 2048 0) false).calls =
            [tabVariable].map Variable.pair ↔
        ∀ saved ∈ [tabVariable], ∀ char ∈ saved.value,
          ¬ Collides 0 char) := by
  have hkey : drawKey (replicate 1100 0) =
      .ok (0, replicate 1099 0) := rfl
  obtain ⟨file, hfile⟩ := exists_nvramSaveNew_eq_ok
    ([tabVariable].map Variable.entry) []
    (rfl : (⟨true, 2000, true⟩ : OutFile).opens = true) rfl
    (by decide) (by decide) hkey (by rw [length_replicate]; decide)
  have hlength : (replicate 2048 (0 : Byte)).length = 2048 :=
    length_replicate
  obtain ⟨text, hload⟩ := loadProfile_of_nvramSaveNew hfile
    (by rw [hlength]; decide : 2 ≤ (replicate 2048 (0 : Byte)).length)
  rw [if_neg (by rw [hlength]; decide)] at hload
  exact ⟨file, hfile, setCalls_restore_iff hfile hkey
    (accepted_of_loadProfile hload (by rw [hlength]; decide) false)⟩

/-- Under the key 7 a tab is masked as a separator: the value comes back cut
off, and the rest of it names a variable to unset. -/
theorem setCalls_restore_loses_tab :
    ((nvramSaveNew ⟨true, 2000, true⟩
        (imageBytes ([tabVariable].map Variable.entry) ++ [0])
        (7 :: replicate 1100 0)).toOption.map fun file =>
          let outcome := nvramRestoreNew (.content file)
            (replicate 2048 0) false
          (outcome.status, outcome.calls)) =
      some (some 0, [.set [97] [120], .unset [121]]) := by
  decide +kernel

end Tomato64.ProfileRoundTrip
