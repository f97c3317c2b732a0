import Tomato64.Nvram.ProfileSave

/-!
# Reading a backup profile

`nvram_restore_new` loads a profile into the caller's work buffer, removes the
mask of the newer format in place, terminates the text with a NUL, and then
walks over the NUL-separated entries of the buffer.

The buffer keeps whatever earlier commands left behind the loaded text.  The
walk therefore runs on the whole rest of the buffer and reports, beside its
calls, how many leading bytes it looked at and whether it ended before leaving
the buffer.
-/

namespace Tomato64.ProfileRestore

open List ProfileSave Run Split Text

def infileNotReadable : ℤ := -1

/-- The file given to `fopen(file, "rb")`. -/
inductive InFile
  | unreadable
  | content (data : Bytes)
  deriving DecidableEq

/-- An effect of the walk: a change of a variable, or text printed to the
stream of the `convert` command. -/
inductive Call
  | set (name value : Bytes)
  | unset (name : Bytes)
  | print (text : Bytes)
  deriving DecidableEq, Repr

/-- The value of little-endian bytes, as `read_le24` and `read_le32`. -/
def readLe : Bytes → ℕ
  | [] => 0
  | byte :: rest => byte.toNat + 256 * readLe rest

/-- The unmasking loop.  `prev` is the byte before the current one, already
unmasked. -/
def unmask (rand : Byte) : Option Byte → Bytes → Bytes
  | _, [] => []
  | prev, byte :: rest =>
    let char :=
      if 0xfd ≤ byte then
        if prev.any (· ≠ 0) then 0 else byte
      else 0xff + rand - byte
    char :: unmask rand (some char) rest

/-- The length check and the read of `filelen` bytes behind the header. -/
def loadBody (filelen buflen : ℕ) (body : Bytes) : Except ℤ Bytes :=
  if filelen = 0 ∨ buflen ≤ filelen then .error invalidCfgFormat
  else if body.length < filelen then .error invalidCfgFormat
  else .ok (body.take filelen)

/-- The text in the buffer when the file is closed, without the NUL behind
it. -/
def loadProfile (file : InFile) (buflen : ℕ) : Except ℤ Bytes :=
  if buflen < 2 then .error invalidCfgFormat
  else
    match file with
    | .unreadable => .error infileNotReadable
    | .content data =>
      let header := data.take 8
      let body := data.drop 8
      if header.length < 8 then .error invalidCfgFormat
      else if header.take 4 = profileHeader then
        loadBody (readLe (header.drop 4)) buflen body
      else if header.take 4 = profileHeaderNew then do
        let payload ←
          loadBody (readLe ((header.drop 4).take 3)) buflen body
        return unmask (header.getD 7 0) none payload
      else .error invalidCfgFormat

/-- What is done with the text of one entry: `ofp` tells whether a stream was
given. -/
def entryCalls (ofp : Bool) (text : Bytes) : List Call :=
  match splitFirst 61 text with
  | some (name, value) =>
    if ofp then [.print name, .print (61 :: value ++ [10])]
    else [.set name value]
  | none => if ofp then [.print (text ++ [61, 10])] else [.unset text]

/-- What a walk did: its calls, the number of leading bytes it looked at, and
whether it ended at a NUL inside the buffer. -/
structure Walk where
  calls : List Call
  reach : ℕ
  inside : Bool
  deriving DecidableEq

/-- A walk behind `count` bytes and the calls made for them. -/
def Walk.after (calls : List Call) (count : ℕ) (walk : Walk) : Walk :=
  ⟨calls ++ walk.calls, count + walk.reach, walk.inside⟩

/-- The loop over the entries. -/
def walk (ofp : Bool) (memory : Bytes) : Walk :=
  match memory with
  | [] => ⟨[], 1, false⟩
  | char :: rest =>
    if char = 0 then ⟨[], 1, true⟩
    else if char < 32 ∨ 127 < char then (walk ofp rest).after [] 1
    else
      match hcut : splitFirst 0 (char :: rest) with
      | none => ⟨[], rest.length + 2, false⟩
      | some (text, next) =>
        (walk ofp next).after (entryCalls ofp text) (text.length + 1)
  termination_by memory.length
  decreasing_by
    · simp
    · have hlength := length_of_splitFirst hcut
      simp only [length_cons] at hlength ⊢
      omega

/-- What `fprintf` returned for the call. -/
def Call.printed : Call → ℕ
  | .print text => text.length
  | _ => 0

/-- `(int)nbytes`. -/
def printedCount (calls : List Call) : ℤ :=
  (BitVec.ofNat 32 (calls.map Call.printed).sum).toInt

/-- The outcome of a restore.  There is no status when the walk left the
buffer.  The first `filled` bytes of the buffer were written before the walk
and the first `reach` bytes were read by it. -/
structure Outcome where
  status : Option ℤ
  calls : List Call
  filled : ℕ
  reach : ℕ
  deriving DecidableEq

/-- `nvram_restore_new`, on a buffer that holds `prior`. -/
def nvramRestoreNew (file : InFile) (prior : Bytes) (ofp : Bool) : Outcome :=
  match loadProfile file prior.length with
  | .error code => ⟨some code, [], 0, 0⟩
  | .ok text =>
    let count := text.length
    let run := walk ofp (text ++ 0 :: prior.drop (count + 1))
    ⟨if run.inside then some (printedCount run.calls) else none,
      run.calls, count + 1, run.reach⟩

/-! ## The loaded text -/

@[simp]
theorem length_unmask (rand : Byte) (prev : Option Byte) (payload : Bytes) :
    (unmask rand prev payload).length = payload.length := by
  induction payload generalizing prev with
  | nil => rfl
  | cons byte rest ih => simp [unmask, ih]

theorem length_lt_of_loadBody {filelen buflen : ℕ} {body payload : Bytes}
    (hload : loadBody filelen buflen body = .ok payload) :
    payload.length < buflen := by
  rw [loadBody] at hload
  split at hload
  · cases hload
  split at hload
  · cases hload
  · cases hload
    rw [length_take]
    omega

variable {text : Bytes} {file : InFile}

/-- The loaded text leaves room for the NUL behind it. -/
theorem length_lt_of_loadProfile {buflen : ℕ}
    (hload : loadProfile file buflen = .ok text) : text.length < buflen := by
  rw [loadProfile.eq_def] at hload
  split at hload
  · cases hload
  cases file with
  | unreadable => cases hload
  | content data =>
    simp only at hload
    split at hload
    · cases hload
    split at hload
    · exact length_lt_of_loadBody hload
    split at hload
    · obtain ⟨payload, hbody, hload⟩ := bind_eq_ok_iff.1 hload
      cases hload
      rw [length_unmask]
      exact length_lt_of_loadBody hbody
    · cases hload

/-! ## The walk, one entry at a time -/

/-- The bytes an entry may start with. -/
def IsText (char : Byte) : Prop :=
  32 ≤ char ∧ char ≤ 127

instance (char : Byte) : Decidable (IsText char) :=
  inferInstanceAs (Decidable (_ ∧ _))

variable {char : Byte}

theorem isText_iff : IsText char ↔ ¬ (char < 32 ∨ 127 < char) := by
  rw [IsText, not_or, UInt8.not_lt, UInt8.not_lt]

theorem IsText.ne_zero (hchar : IsText char) : char ≠ 0 := by
  rintro rfl
  exact absurd hchar (by decide)

section Walk

variable (ofp : Bool) {char : Byte} {tail : Bytes}

@[simp]
theorem walk_nul (rest : Bytes) : walk ofp (0 :: rest) = ⟨[], 1, true⟩ := by
  rw [walk]
  simp

theorem walk_skip (hnul : char ≠ 0) (hchar : ¬ IsText char) (rest : Bytes) :
    walk ofp (char :: rest) = (walk ofp rest).after [] 1 := by
  rw [isText_iff, not_not] at hchar
  rw [walk, if_neg hnul, if_pos hchar]

theorem walk_entry (hchar : IsText char) (htail : NulFree tail) (next : Bytes) :
    walk ofp (char :: (tail ++ 0 :: next)) =
      (walk ofp next).after (entryCalls ofp (char :: tail))
        (tail.length + 2) := by
  have hfree : NulFree (char :: tail) := nulFree_cons.2 ⟨hchar.ne_zero, htail⟩
  have hcut := splitFirst_append hfree next
  rw [cons_append] at hcut
  rw [walk, if_neg hchar.ne_zero, if_neg (isText_iff.1 hchar)]
  split
  · next hnone =>
    rw [hcut] at hnone
    cases hnone
  · next text rest hsome =>
    rw [hcut, Option.some.injEq, Prod.mk.injEq] at hsome
    obtain ⟨rfl, rfl⟩ := hsome
    rfl

end Walk

/-- The cases of the walk over a text of the file: it stops at a NUL, skips a
byte, comes to an entry that the text ends in, or comes to one with a NUL
behind it. -/
theorem text_induction {motive : Bytes → Prop} (nil : motive [])
    (nul : ∀ rest, motive (0 :: rest))
    (skip : ∀ char rest, char ≠ 0 → ¬ IsText char → motive rest →
      motive (char :: rest))
    (last : ∀ char tail, IsText char → NulFree tail → motive (char :: tail))
    (entry : ∀ char tail back, IsText char → NulFree tail → motive back →
      motive (char :: (tail ++ 0 :: back))) (text : Bytes) : motive text := by
  induction hlength : text.length using Nat.strong_induction_on
    generalizing text with
  | _ length ih =>
    subst hlength
    cases text with
    | nil => exact nil
    | cons char rest =>
      by_cases hnul : char = 0
      · subst char
        exact nul rest
      by_cases hchar : IsText char
      swap
      · apply skip char rest hnul hchar
        exact ih rest.length (by simp) rest rfl
      cases hcut : splitFirst 0 rest with
      | none =>
        exact last char rest hchar (splitFirst_eq_none_iff.1 hcut)
      | some cut =>
        obtain ⟨tail, back⟩ := cut
        obtain ⟨rfl, htail⟩ := splitFirst_eq_some_iff.1 hcut
        apply entry char tail back hchar htail
        apply ih back.length _ back rfl
        simp only [length_cons, length_append]
        omega

/-! ## Where the walk stops -/

/-- Some NUL-separated part of the text has no byte an entry may start
with. -/
def HasBlankPart (text : Bytes) : Prop :=
  ∃ part ∈ text.splitOn 0, ∀ char ∈ part, ¬ IsText char

instance (text : Bytes) : Decidable (HasBlankPart text) :=
  inferInstanceAs (Decidable (∃ part ∈ _, _))

theorem hasBlankPart_of_nulFree (htext : NulFree text) :
    HasBlankPart text ↔ ∀ char ∈ text, ¬ IsText char := by
  simp [HasBlankPart, splitOn_eq_singleton htext]

theorem hasBlankPart_append {front : Bytes} (hfront : NulFree front)
    (back : Bytes) :
    HasBlankPart (front ++ 0 :: back) ↔
      (∀ char ∈ front, ¬ IsText char) ∨ HasBlankPart back := by
  simp [HasBlankPart, splitOn_append_cons_self_of_not_mem hfront]

theorem hasBlankPart_skip (hnul : char ≠ 0)
    (hchar : ¬ IsText char) (rest : Bytes) :
    HasBlankPart (char :: rest) ↔ HasBlankPart rest := by
  cases hcut : splitFirst 0 rest with
  | none =>
    have hrest : NulFree rest := splitFirst_eq_none_iff.1 hcut
    have hcons : NulFree (char :: rest) := nulFree_cons.2 ⟨hnul, hrest⟩
    rw [hasBlankPart_of_nulFree hrest, hasBlankPart_of_nulFree hcons]
    simp [hchar]
  | some cut =>
    obtain ⟨front, back⟩ := cut
    obtain ⟨rfl, hfront⟩ := splitFirst_eq_some_iff.1 hcut
    have hcons : NulFree (char :: front) := nulFree_cons.2 ⟨hnul, hfront⟩
    rw [← cons_append, hasBlankPart_append hcons, hasBlankPart_append hfront]
    simp [hchar]

theorem hasBlankPart_entry {tail : Bytes} (hchar : IsText char)
    (htail : NulFree tail) (back : Bytes) :
    HasBlankPart (char :: (tail ++ 0 :: back)) ↔ HasBlankPart back := by
  have hcons := nulFree_cons.2 ⟨hchar.ne_zero, htail⟩
  rw [← cons_append, hasBlankPart_append hcons, or_iff_right]
  exact fun hall => hall char mem_cons_self hchar

/-- The walk ends inside the text or at the NUL behind it, whatever follows in
the buffer. -/
theorem walk_of_hasBlankPart (ofp : Bool) (hblank : HasBlankPart text) :
    ∃ calls reach, reach ≤ text.length + 1 ∧
      ∀ stale, walk ofp (text ++ 0 :: stale) = ⟨calls, reach, true⟩ := by
  induction text using text_induction with
  | nil => exact ⟨[], 1, by simp, by simp⟩
  | nul rest => exact ⟨[], 1, by simp, by simp⟩
  | skip char rest hnul hchar ih =>
    rw [hasBlankPart_skip hnul hchar] at hblank
    obtain ⟨calls, reach, hreach, hwalk⟩ := ih hblank
    refine ⟨calls, 1 + reach, by simp only [length_cons]; omega, ?_⟩
    intro stale
    rw [cons_append, walk_skip ofp hnul hchar, hwalk]
    rfl
  | last char tail hchar htail =>
    rw [hasBlankPart_of_nulFree
      (nulFree_cons.2 ⟨hchar.ne_zero, htail⟩)] at hblank
    exact absurd hchar (hblank char mem_cons_self)
  | entry char tail back hchar htail ih =>
    rw [hasBlankPart_entry hchar htail] at hblank
    obtain ⟨calls, reach, hreach, hwalk⟩ := ih hblank
    refine ⟨entryCalls ofp (char :: tail) ++ calls,
      tail.length + 2 + reach, ?_, ?_⟩
    · simp only [length_append, length_cons]
      omega
    · intro stale
      rw [cons_append, append_assoc, cons_append,
        walk_entry ofp hchar htail, hwalk]
      rfl

theorem one_le_reach_walk (ofp : Bool) (memory : Bytes) :
    1 ≤ (walk ofp memory).reach := by
  rw [walk.eq_def]
  repeat' split
  all_goals simp [Walk.after]
  all_goals omega

/-- Without a blank part the walk passes the NUL behind the text. -/
theorem length_lt_reach_walk (ofp : Bool)
    (hblank : ¬ HasBlankPart text) (stale : Bytes) :
    text.length + 1 < (walk ofp (text ++ 0 :: stale)).reach := by
  induction text using text_induction with
  | nil => exact absurd (by decide) hblank
  | nul rest =>
    have hnil : NulFree [] := by decide
    exact absurd ((hasBlankPart_append hnil rest).2 (.inl (by simp))) hblank
  | skip char rest hnul hchar ih =>
    rw [hasBlankPart_skip hnul hchar] at hblank
    have hreach := ih hblank
    rw [cons_append, walk_skip ofp hnul hchar]
    simp only [Walk.after, length_cons]
    omega
  | last char tail hchar htail =>
    have hreach := one_le_reach_walk ofp stale
    rw [cons_append, walk_entry ofp hchar htail]
    simp only [Walk.after, length_cons]
    omega
  | entry char tail back hchar htail ih =>
    rw [hasBlankPart_entry hchar htail] at hblank
    have hreach := ih hblank
    rw [cons_append, append_assoc, cons_append, walk_entry ofp hchar htail]
    simp only [Walk.after, length_append, length_cons]
    omega

/-! ## Calls and status -/

def Call.changes : Call → Bool
  | .set _ _ => true
  | .unset _ => true
  | .print _ => false

theorem changes_of_mem_entryCalls {ofp : Bool} {call : Call}
    (hcall : call ∈ entryCalls ofp text) : call.changes = !ofp := by
  rw [entryCalls] at hcall
  split at hcall <;> cases ofp <;> simp at hcall
  · subst hcall
    rfl
  · rcases hcall with rfl | rfl <;> rfl
  · subst hcall
    rfl
  · subst hcall
    rfl

/-- A walk with a stream prints, a walk without one changes variables. -/
theorem changes_of_mem_walk {ofp : Bool} {memory : Bytes} {call : Call}
    (hcall : call ∈ (walk ofp memory).calls) : call.changes = !ofp := by
  fun_induction walk ofp memory with
  | case1 => cases hcall
  | case2 => cases hcall
  | case3 char rest hnul hskip ih => exact ih hcall
  | case4 => cases hcall
  | case5 char rest hnul hskip text next hcut ih =>
    rcases mem_append.1 hcall with hcall | hcall
    · exact changes_of_mem_entryCalls hcall
    · exact ih hcall

theorem printedCount_of_changes {calls : List Call}
    (hcalls : ∀ call ∈ calls, call.changes = true) :
    printedCount calls = 0 := by
  have hzero : (calls.map Call.printed).sum = 0 := by
    apply sum_eq_zero
    intro count hcount
    obtain ⟨call, hcall, rfl⟩ := mem_map.1 hcount
    cases call with
    | set _ _ => rfl
    | unset _ => rfl
    | print _ => exact absurd (hcalls _ hcall) (by simp [Call.changes])
  simp [printedCount, hzero]

/-- What a restore of this file is trusted with: it returns, it reads only
bytes that it has filled from the file, its status and calls do not depend on
what the buffer held before, and it changes no variable when it fails. -/
structure DependsOnFileOnly (file : InFile) (buflen : ℕ) (ofp : Bool) :
    Prop where
  returns : ∀ prior : Bytes, prior.length = buflen →
    (nvramRestoreNew file prior ofp).status ≠ none
  reads : ∀ prior : Bytes, prior.length = buflen →
    (nvramRestoreNew file prior ofp).reach ≤
      (nvramRestoreNew file prior ofp).filled
  sameEffect : ∀ left right : Bytes, left.length = buflen →
    right.length = buflen →
    (nvramRestoreNew file left ofp).status =
        (nvramRestoreNew file right ofp).status ∧
      (nvramRestoreNew file left ofp).calls =
        (nvramRestoreNew file right ofp).calls
  silentOnError : ∀ (prior : Bytes) (code : ℤ), prior.length = buflen →
    (nvramRestoreNew file prior ofp).status = some code → code < 0 →
    ∀ call ∈ (nvramRestoreNew file prior ofp).calls, call.changes = false

theorem nvramRestoreNew_of_error {prior : Bytes} {code : ℤ}
    (hload : loadProfile file prior.length = .error code) (ofp : Bool) :
    nvramRestoreNew file prior ofp = ⟨some code, [], 0, 0⟩ := by
  rw [nvramRestoreNew, hload]

theorem nvramRestoreNew_of_ok {prior : Bytes}
    (hload : loadProfile file prior.length = .ok text) (ofp : Bool) :
    nvramRestoreNew file prior ofp =
      let run := walk ofp (text ++ 0 :: prior.drop (text.length + 1))
      ⟨if run.inside then some (printedCount run.calls) else none,
        run.calls, text.length + 1, run.reach⟩ := by
  rw [nvramRestoreNew, hload]

/-- A failed restore has changed nothing, whatever it read. -/
theorem silent_of_status_neg {prior : Bytes} {ofp : Bool}
    {code : ℤ} (hstatus : (nvramRestoreNew file prior ofp).status = some code)
    (hcode : code < 0) :
    ∀ call ∈ (nvramRestoreNew file prior ofp).calls, call.changes = false := by
  intro call hcall
  cases hload : loadProfile file prior.length with
  | error code =>
    rw [nvramRestoreNew_of_error hload] at hcall
    cases hcall
  | ok text =>
    rw [nvramRestoreNew_of_ok hload] at hstatus hcall
    cases ofp with
    | true => exact changes_of_mem_walk hcall
    | false =>
      have hprinted : printedCount (walk false
          (text ++ 0 :: prior.drop (text.length + 1))).calls = 0 :=
        printedCount_of_changes fun _ => changes_of_mem_walk
      simp only at hstatus
      split at hstatus
      · rw [hprinted, Option.some.injEq] at hstatus
        omega
      · cases hstatus

/-- A file whose text stops the walk fixes the whole outcome. -/
theorem exists_outcome_of_hasBlankPart {buflen : ℕ}
    (hstops : ∀ text, loadProfile file buflen = .ok text → HasBlankPart text)
    (ofp : Bool) :
    ∃ outcome : Outcome, outcome.status ≠ none ∧
      outcome.reach ≤ outcome.filled ∧
      ∀ prior : Bytes, prior.length = buflen →
        nvramRestoreNew file prior ofp = outcome := by
  cases hload : loadProfile file buflen with
  | error code =>
    refine ⟨⟨some code, [], 0, 0⟩, by simp, by simp, ?_⟩
    intro prior hprior
    exact nvramRestoreNew_of_error (by rw [hprior, hload]) ofp
  | ok text =>
    obtain ⟨calls, reach, hreach, hwalk⟩ :=
      walk_of_hasBlankPart ofp (hstops text hload)
    refine ⟨⟨some (printedCount calls), calls, text.length + 1, reach⟩,
      by simp, hreach, ?_⟩
    intro prior hprior
    rw [nvramRestoreNew_of_ok (by rw [hprior, hload]), hwalk]
    rfl

/-- A restore depends on the file alone exactly when the file is rejected or
its text has a part that stops the walk. -/
theorem dependsOnFileOnly_iff (file : InFile) (buflen : ℕ) (ofp : Bool) :
    DependsOnFileOnly file buflen ofp ↔
      ∀ text, loadProfile file buflen = .ok text → HasBlankPart text := by
  constructor
  · intro htrust text hload
    by_contra hblank
    have hlength : (replicate buflen (0 : Byte)).length = buflen :=
      length_replicate
    have hreads := htrust.reads _ hlength
    rw [nvramRestoreNew_of_ok (by rw [hlength, hload])] at hreads
    exact absurd hreads (Nat.not_le.2 (length_lt_reach_walk ofp hblank _))
  · intro hstops
    obtain ⟨outcome, hreturns, hreads, hrun⟩ :=
      exists_outcome_of_hasBlankPart hstops ofp
    constructor
    · intro prior hprior
      rwa [hrun prior hprior]
    · intro prior hprior
      rwa [hrun prior hprior]
    · intro left right hleft hright
      rw [hrun left hleft, hrun right hright]
      exact ⟨rfl, rfl⟩
    · intro prior code _ hstatus hcode
      exact silent_of_status_neg hstatus hcode

/-- A file in the older format whose three bytes are the entry `a=b`. -/
def unterminatedProfile : InFile :=
  .content (profileHeader ++ [3, 0, 0, 0] ++ [97, 61, 98])

/-- The walk goes on behind the loaded entry: what an earlier command left in
the buffer is set as a variable. -/
theorem unterminatedProfile_sets_stale :
    nvramRestoreNew unterminatedProfile (replicate 12 0) false =
        ⟨some 0, [.set [97] [98]], 4, 5⟩ ∧
      nvramRestoreNew unterminatedProfile
          [0, 0, 0, 0, 120, 61, 121, 0, 0, 0, 0, 0] false =
        ⟨some 0, [.set [97] [98], .set [120] [121]], 4, 9⟩ ∧
      ¬ DependsOnFileOnly unterminatedProfile 12 false := by
  have hclean : nvramRestoreNew unterminatedProfile (replicate 12 0)
      false = ⟨some 0, [.set [97] [98]], 4, 5⟩ := by
    decide +kernel
  refine ⟨hclean, by decide +kernel, ?_⟩
  intro htrust
  have hreads := htrust.reads (replicate 12 0) rfl
  rw [hclean] at hreads
  exact absurd hreads (by decide)

end Tomato64.ProfileRestore
