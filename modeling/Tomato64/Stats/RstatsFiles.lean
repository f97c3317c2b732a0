import Tomato64.Core.Run
import Tomato64.Stats.Rstats

/-!
# The files of `rstats`

The table is kept at the path of the settings, with five numbered backups, and
in a local copy.  `load` tries the backups when the file at the path has no
records, but then forgets what it found.  `save` moves the backups on once a
day, and has one variable for the day on which it last did so for the history
or for the table.
-/

namespace Tomato64.RstatsFiles

open List Rstats Run Shared Stats Text

/-! ## Loading the table -/

/-- The whole records that `gzread` gets from each file: none, if it cannot be
read.  The backups are `_5.bak` to `_1.bak`. -/
structure SpeedFiles where
  saved : List Row
  backups : Fin 5 → List Row
  localCopy : List Row

def decomp (file : List Row) : List Row :=
  file.take maxSpeedIf

/-- `speed_count`, and the records of `speed`. -/
structure Table where
  count : ℕ
  speed : List Row

/-- `if (load_speed(fn) > 0) found = 1` -/
def tryNext (found : Bool × Table) (file : List Row) : Bool × Table :=
  (found.1 || 0 < (decomp file).length, { found.2 with speed := decomp file })

def tryHardway (files : SpeedFiles) (table : Table) : ℕ × Table :=
  let (found, table) :=
    (ofFn files.backups ++ [files.saved]).foldl tryNext (false, table)
  (if found then table.count else 0, table)

/-- The history has a path of its own, and the table a file beside it. -/
def savesFiles (nvram : Nvram) : Bool :=
  nvram (bytes "rstats_path") ≠ [] &&
    nvram (bytes "rstats_path") ≠ bytes "*nvram"

/-- The table from the path, with `speed_loaded` as the constructor. -/
def loadSaved (nvram : Nvram) (files : SpeedFiles) : Option Table :=
  if savesFiles nvram then
    let table := ⟨(decomp files.saved).length, decomp files.saved⟩
    if 0 < table.count then some table
    else
      let (count, table) := tryHardway files table
      if 0 < count then some { table with count := count } else none
  else none

def limitUtime (uptime : ℤ) (row : Row) : Row :=
  if uptime < row.meter.utime then
    { row with meter := { row.meter with utime := uptime, sync := 1 } }
  else row

/-- The part of `load` for the table. -/
def load (nvram : Nvram) (uptime : ℤ) (files : SpeedFiles) : List Row :=
  let table := (loadSaved nvram files).getD
    ⟨(decomp files.localCopy).length, decomp files.localCopy⟩
  (table.speed.take table.count).map (limitUtime uptime)

/-- The backup that is to be taken. -/
def newestBackup (files : SpeedFiles) : Option (List Row) :=
  (ofFn files.backups).reverse.find? (!·.isEmpty)

/-- The records that `load` is to find: those at the path or in the newest
backup, or else in the local copy. -/
def newest (nvram : Nvram) (files : SpeedFiles) : List Row :=
  if savesFiles nvram then
    if files.saved.isEmpty then (newestBackup files).getD files.localCopy
    else files.saved
  else files.localCopy

theorem count_tryHardway (files : SpeedFiles) (table : Table)
    (hcount : table.count = 0) : (tryHardway files table).1 = 0 := by
  have hkeep : ∀ (tried : List (List Row)) found,
      (tried.foldl tryNext found).2.count = found.2.count := by
    intro tried
    induction tried with
    | nil => exact fun _ => rfl
    | cons file tried ih => exact fun found => ih _
  rw [tryHardway]
  simp only [hkeep, hcount, ite_self]

theorem loadSaved_eq (nvram : Nvram) (files : SpeedFiles) :
    loadSaved nvram files =
      if savesFiles nvram ∧ files.saved ≠ [] then
        some ⟨(decomp files.saved).length, decomp files.saved⟩
      else none := by
  rw [loadSaved]
  by_cases hsaves : savesFiles nvram = true
  swap
  · rw [if_neg hsaves, if_neg fun hboth => hsaves hboth.1]
  rw [if_pos hsaves]
  by_cases hsaved : files.saved = []
  · simp only [hsaved, decomp, take_nil, length_nil, Nat.lt_irrefl, ne_eq,
      not_true_eq_false, and_false, if_false, count_tryHardway]
  · have hlength : 0 < (decomp files.saved).length := by
      rw [decomp, length_take]
      exact Nat.lt_min.mpr ⟨by decide, length_pos_iff.mpr hsaved⟩
    rw [if_pos hlength, if_pos ⟨hsaves, hsaved⟩]

/-- The table holds the newest records exactly if no backup would have to be
read, or the local copy has the same. -/
theorem load_newest_iff (nvram : Nvram) (uptime : ℤ) (files : SpeedFiles) :
    load nvram uptime files =
        (decomp (newest nvram files)).map (limitUtime uptime) ↔
      (savesFiles nvram = true → files.saved = [] →
        ∀ backup ∈ newestBackup files,
          (decomp files.localCopy).map (limitUtime uptime) =
            (decomp backup).map (limitUtime uptime)) := by
  rw [load, loadSaved_eq, newest]
  by_cases hsaves : savesFiles nvram = true
  · by_cases hsaved : files.saved = []
    · simp only [hsaves, hsaved, ne_eq, not_true_eq_false, and_false, if_false,
        Option.getD_none, take_length, if_true, isEmpty_nil, true_imp_iff]
      cases newestBackup files with
      | none => simp
      | some backup => simp
    · simp [hsaves, hsaved]
  · simp [hsaves]

/-- The path is set, and one backup has a record while the file and the local
copy have none. -/
theorem load_misses_backup :
    load (fun _ => bytes "/mnt/usb/") 0
        ⟨[], fun _ => [⟨bytes "eth0", Meter.new 0⟩], []⟩ = [] ∧
      newest (fun _ => bytes "/mnt/usb/")
        ⟨[], fun _ => [⟨bytes "eth0", Meter.new 0⟩], []⟩ ≠ [] := by
  refine ⟨rfl, ?_⟩
  simp [newest, newestBackup, savesFiles, bytes]

/-! ## Backups -/

/-- The day on which a save is called, with `tm_yday`. -/
structure Date where
  year : ℤ
  yday : ℕ
deriving DecidableEq

/-- The commands for one file: the copy to the temporary file, whether
`rstats_bak` is not `0` then, the day of the clock then, the copy of the old
file to `_1.bak`, and the last `rename`. -/
structure Attempt where
  copied : Bool
  bak : Bool
  yday : ℕ
  kept : Bool
  renamed : Bool

/-- The backups are moved. -/
def Attempt.rotates (attempt : Attempt) (lastbak : ℤ) : Bool :=
  attempt.copied && attempt.bak && lastbak ≠ attempt.yday

def Attempt.after (attempt : Attempt) (lastbak : ℤ) : ℤ :=
  if attempt.rotates lastbak && attempt.kept then attempt.yday else lastbak

def Attempt.succeeds (attempt : Attempt) : Bool :=
  attempt.copied && attempt.renamed

/-- A call of `save(0)`: the rounds of the loop for the history, and the table.
A loop that is left early has fewer rounds. -/
structure Save where
  date : Date
  attempts : List Attempt
  speed : Attempt

/-- The static variable, and the days of the saves that came through. -/
structure Log where
  lastbak : ℤ
  days : List Date

def Log.start : Log :=
  ⟨-1, []⟩

/-- What a loop leaves behind. -/
structure Round where
  lastbak : ℤ
  rotated : Bool
  renamed : Bool

def saveHistory : List Attempt → ℤ → Round
  | [], lastbak => ⟨lastbak, false, false⟩
  | attempt :: attempts, lastbak =>
    if attempt.succeeds then
      ⟨attempt.after lastbak, attempt.rotates lastbak, true⟩
    else
      let round := saveHistory attempts (attempt.after lastbak)
      { round with rotated := attempt.rotates lastbak || round.rotated }

def Save.history (save : Save) (log : Log) : Round :=
  saveHistory (save.attempts.take 15) log.lastbak

/-- Behind the last `rename` comes the file of the table. -/
def Save.rotatesSpeed (save : Save) (log : Log) : Bool :=
  (save.history log).renamed && save.speed.rotates (save.history log).lastbak

def Log.save (log : Log) (save : Save) : Log :=
  let round := save.history log
  if round.renamed then
    ⟨save.speed.after round.lastbak, save.date :: log.days⟩
  else { log with lastbak := round.lastbak }

/-- The first save of a day that comes through moves both sets of backups, and
every later one moves none of them. -/
def Rotates (log : Log) (save : Save) : Prop :=
  if save.date ∈ log.days then
    (save.history log).rotated = false ∧ save.rotatesSpeed log = false
  else (save.history log).renamed = true →
    (save.history log).rotated = true ∧ save.rotatesSpeed log = true

/-- The rounds up to the one that comes through. -/
def tried : List Attempt → List Attempt
  | [] => []
  | attempt :: attempts =>
    attempt :: if attempt.succeeds then [] else tried attempts

def Save.rounds (save : Save) : List Attempt :=
  tried (save.attempts.take 15)

/-- The day of the last round with a copy in `_1.bak`. -/
def lastKept (lastbak : ℤ) (rounds : List Attempt) : ℤ :=
  let next := fun (day : ℤ) (round : Attempt) =>
    if round.copied && round.bak && round.kept then ↑round.yday else day
  rounds.foldl next lastbak

/-- On a first save a round finds another day in the variable, and so does the
table behind the last copy; on a later one they all find their own day. -/
def Fits (log : Log) (save : Save) : Prop :=
  let succeeds := save.rounds.any (·.succeeds) = true
  if save.date ∈ log.days then
    (∀ round ∈ save.rounds, round.rotates log.lastbak = false) ∧
      (succeeds → save.speed.rotates log.lastbak = false)
  else succeeds →
    (∃ round ∈ save.rounds, round.rotates log.lastbak = true) ∧
      save.speed.rotates (lastKept log.lastbak save.rounds) = true

section
variable {lastbak : ℤ}

theorem Attempt.after_of_not_rotates {attempt : Attempt}
    (hrotates : attempt.rotates lastbak = false) :
    attempt.after lastbak = lastbak := by
  rw [Attempt.after, hrotates]
  rfl

/-- A copy that is not made would be for the day that is there already. -/
theorem Attempt.after_eq (attempt : Attempt) :
    attempt.after lastbak =
      if attempt.copied && attempt.bak && attempt.kept then ↑attempt.yday
      else lastbak := by
  rw [Attempt.after, Attempt.rotates]
  by_cases hday : lastbak = attempt.yday
  · simp [hday]
  · simp [hday, and_assoc]

theorem lastKept_cons (round : Attempt) (rounds : List Attempt) :
    lastKept lastbak (round :: rounds) =
      lastKept (round.after lastbak) rounds := by
  rw [lastKept, foldl_cons, ← Attempt.after_eq, ← lastKept]

theorem saveHistory_lastbak (attempts : List Attempt) :
    (saveHistory attempts lastbak).lastbak =
      lastKept lastbak (tried attempts) := by
  induction attempts generalizing lastbak with
  | nil => rfl
  | cons attempt attempts ih =>
    rw [saveHistory, tried, lastKept_cons]
    split
    · rfl
    · exact ih

theorem saveHistory_renamed (attempts : List Attempt) :
    (saveHistory attempts lastbak).renamed =
      (tried attempts).any (·.succeeds) := by
  induction attempts generalizing lastbak with
  | nil => rfl
  | cons attempt attempts ih =>
    rw [saveHistory, tried]
    split
    · simp [*]
    · simp [*]

/-- As long as no round moves the backups, the variable stays. -/
theorem saveHistory_rotated (attempts : List Attempt) :
    (saveHistory attempts lastbak).rotated =
      (tried attempts).any (·.rotates lastbak) := by
  induction attempts generalizing lastbak with
  | nil => rfl
  | cons attempt attempts ih =>
    rw [saveHistory, tried]
    cases hrotates : attempt.rotates lastbak with
    | true => split <;> simp [hrotates]
    | false =>
      rw [Attempt.after_of_not_rotates hrotates]
      split <;> simp [hrotates, ih]

theorem lastKept_of_not_rotates {rounds : List Attempt}
    (hrounds : ∀ round ∈ rounds, round.rotates lastbak = false) :
    lastKept lastbak rounds = lastbak := by
  induction rounds with
  | nil => rfl
  | cons round rounds ih =>
    obtain ⟨hround, hrounds⟩ := forall_mem_cons.mp hrounds
    rw [lastKept_cons, Attempt.after_of_not_rotates hround, ih hrounds]

end

theorem rotates_iff_fits (log : Log) (save : Save) :
    Rotates log save ↔ Fits log save := by
  rw [Rotates, Fits, Save.rotatesSpeed, Save.history, saveHistory_lastbak,
    saveHistory_renamed, saveHistory_rotated, ← Save.rounds]
  split
  · rw [any_eq_false]
    simp only [Bool.not_eq_true]
    refine and_congr_right fun hrounds => ?_
    rw [lastKept_of_not_rotates hrounds]
    simp [imp_iff_not_or]
  · refine imp_congr_right fun hsucceeds => ?_
    rw [hsucceeds, any_eq_true, Bool.true_and]

/-- Each save moves the backups as it should exactly if each one meets the
condition in the state that it finds. -/
theorem saves_rotate_iff (saves : List Save) :
    Along Log.save Rotates Log.start saves ↔
      Along Log.save Fits Log.start saves :=
  @along_congr _ _ _ _ (fun _ => True) _ (fun _ _ _ _ => trivial)
    (fun log save _ => rotates_iff_fits log save) _ _ trivial

/-- A first save with every command successful. -/
theorem saves_keep_speed :
    ¬ Along Log.save Rotates Log.start
      [⟨⟨126, 0⟩, [⟨true, true, 0, true, true⟩],
        ⟨true, true, 0, true, true⟩⟩] := by
  rintro ⟨hrotates, -⟩
  exact absurd (hrotates rfl).2 (by decide)

end Tomato64.RstatsFiles
