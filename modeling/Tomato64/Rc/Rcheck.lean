import Mathlib.Data.List.Nodup
import Mathlib.Tactic.FinCases
import Tomato64.Core.Run
import Tomato64.Core.Scan

/-!
# The schedule of the access restrictions

`rcheck` runs from cron.  It reads the restriction rules, decides for each one
whether it is in schedule, and switches the rules whose state differs from the
one that `rrules_activated` records.  A rule about hosts is switched by a jump
of the chain `restrict`, a rule about the wireless by the command `radio`.
-/

namespace Tomato64.Restrict

open Text Scan

def maxNrules : ℕ := 50

def y2k : ℤ := 946684800

/-- The part of an enabled rule that `rcheck` reads. -/
structure Rule where
  schedBegin : ℤ
  schedEnd : ℤ
  schedDow : BitVec 32
  comp : Byte
deriving DecidableEq

/-- A `%d` conversion and the bar behind it. -/
def scanBar (text : Bytes) : Option (ℤ × Bytes) :=
  match scanInt text with
  | some (value, char :: rest) =>
    if char = ascii '|' then some (value, rest) else none
  | _ => none

/-- `sscanf(p, "%d|%d|%d|%d|%c", ..) == 5`, for a rule that is not disabled. -/
def scanRule (text : Bytes) : Option Rule :=
  (scanBar text).bind fun enabled =>
    (scanBar enabled.2).bind fun schedBegin =>
      (scanBar schedBegin.2).bind fun schedEnd =>
        (scanBar schedEnd.2).bind fun schedDow =>
          match schedDow.2 with
          | [] => none
          | comp :: _ =>
            if enabled.1 = 0 then none
            else some ⟨schedBegin.1, schedEnd.1, BitVec.ofInt 32 schedDow.1,
              comp⟩

def Rule.wireless (rule : Rule) : Bool :=
  rule.comp = ascii '~'

/-- `%02d` -/
def twoDigits (number : ℕ) : Bytes :=
  if number < 10 then bytes "0" ++ decimal number else decimal number

def Rule.chain (rule : Rule) (nrule : ℕ) : Bytes :=
  bytes "r" ++ (if rule.comp ≠ ascii '|' then bytes "dev" else bytes "res") ++
    twoDigits nrule

/-- The settings: the texts of `rruleN`, and whether the radio of a wireless
interface is enabled. -/
structure Settings where
  rrule : ℕ → Option Bytes
  radioOn : Bool

variable (settings : Settings)

def Settings.rule (nrule : ℕ) : Option Rule :=
  (settings.rrule nrule).bind scanRule

/-! ## Schedules -/

/-- `localtime` -/
structure Clock where
  time : ℤ
  wday : Fin 7
  hour : Fin 24
  min : Fin 60

def Clock.nowDow (clock : Clock) : BitVec 32 :=
  1#32 <<< clock.wday.val

def Clock.nowMins (clock : Clock) : ℤ :=
  clock.hour.val * 60 + clock.min.val

/-- `ror now_dow, 1` -/
def dayBefore (nowDow : BitVec 32) : BitVec 32 :=
  if nowDow = 1#32 then 1#32 <<< 6 else nowDow >>> 1

def inSched (nowMins : ℤ) (nowDow : BitVec 32) (rule : Rule) : Bool :=
  if rule.schedBegin < 0 ∨ rule.schedEnd < 0 then
    rule.schedDow &&& nowDow ≠ 0
  else if rule.schedBegin < rule.schedEnd then
    rule.schedDow &&& nowDow ≠ 0 ∧ rule.schedBegin ≤ nowMins ∧
      nowMins < rule.schedEnd
  else if nowDow &&& rule.schedDow ≠ 0 ∧ rule.schedBegin ≤ nowMins then true
  else dayBefore nowDow &&& rule.schedDow ≠ 0 ∧ nowMins < rule.schedEnd

/-- All day on every day of the week. -/
def Rule.always (rule : Rule) : Bool :=
  rule.schedBegin < 0 ∧ rule.schedEnd < 0 ∧ rule.schedDow = 0x7F#32

/-- Whether a rule is in schedule.  Without a clock only the rules that are
always in force are looked at. -/
def Clock.insch (clock : Clock) (rule : Rule) : Option Bool :=
  if clock.time < y2k then if rule.always then some true else none
  else some (inSched clock.nowMins clock.nowDow rule)

/-! ## The firewall -/

/-- The commands about the jumps of `restrict`. -/
inductive Command where
  | delete (chain : Bytes)
  | append (chain : Bytes)
deriving DecidableEq

/-- `iptables` on the jumps of `restrict`, and whether it succeeds.  A jump
that is not there cannot be deleted. -/
def iptables (succeeds : Command → Bool) (jumps : List Bytes) :
    Command → List Bytes × Bool
  | .delete chain =>
    if succeeds (.delete chain) ∧ chain ∈ jumps then
      (jumps.erase chain, true)
    else (jumps, false)
  | .append chain =>
    if succeeds (.append chain) then (jumps ++ [chain], true)
    else (jumps, false)

/-- The jump to a chain is deleted and, for a rule in schedule, added again. -/
def switchChain (succeeds : Command → Bool) (jumps : List Bytes)
    (chain : Bytes) (insch : Bool) : List Bytes × Bool :=
  let deleted := iptables succeeds jumps (.delete chain)
  if insch then iptables succeeds deleted.1 (.append chain) else deleted

/-! ## A run -/

/-- What one run of `rcheck` is given: the time, the commands that succeed and
whether it was started with `--cron`. -/
structure Run where
  clock : Clock
  succeeds : Command → Bool
  cron : Bool

/-- `1 << nrule`, an `int`, as it is combined with the mask. -/
def ruleMask (nrule : ℕ) : BitVec 64 :=
  (1#32 <<< (nrule % 32)).signExtend 64

/-- The variables of the loop. -/
structure Pass where
  activated : BitVec 64
  jumps : List Bytes
  radio : ℤ
  count : ℕ
  iptActive : ℕ

def Pass.record (pass : Pass) (nrule : ℕ) (insch : Bool) : Pass :=
  { pass with
    activated :=
      if insch then pass.activated ||| ruleMask nrule
      else pass.activated &&& ~~~ruleMask nrule }

/-- A rule is switched on or off.  When `iptables` fails, the mask stays. -/
def Pass.switch (pass : Pass) (run : Run) (nrule : ℕ) (rule : Rule)
    (insch : Bool) : Pass :=
  if rule.wireless then
    { pass with
      radio :=
        if pass.radio ≠ 0 ∧ pass.radio ≠ -2 then if insch then 0 else 1
        else pass.radio }.record nrule insch
  else
    let switched := switchChain run.succeeds pass.jumps (rule.chain nrule) insch
    if switched.2 then { pass with jumps := switched.1 }.record nrule insch
    else { pass with jumps := switched.1 }

/-- The body of the loop. -/
def checkRule (run : Run) (pass : Pass) (nrule : ℕ) : Pass :=
  match settings.rule nrule with
  | none => pass
  | some rule =>
    match run.clock.insch rule with
    | none => { pass with count := pass.count + 1 }
    | some insch =>
      let counted :=
        { pass with
          count := pass.count + 1
          iptActive :=
            if insch && !rule.wireless then pass.iptActive + 1
            else pass.iptActive }
      if insch = decide (pass.activated &&& ruleMask nrule ≠ 0) then counted
      else counted.switch run nrule rule insch

/-- What stays behind: the mask `rrules_activated`, the jumps of `restrict`,
the last `radio` command, whether cron runs `rcheck`, and whether the
restrictions allow the fast path. -/
structure State where
  activated : BitVec 64
  jumps : List Bytes
  radio : Option Bool
  scheduled : Bool
  fastnat : Bool

def Settings.start (state : State) : Pass :=
  ⟨state.activated, state.jumps, if settings.radioOn then -1 else -2, 0, 0⟩

def Settings.loop (run : Run) (state : State) : Pass :=
  (List.range maxNrules).foldl (checkRule settings run) (settings.start state)

def rcheckMain (state : State) (run : Run) : State :=
  let pass := settings.loop run state
  { activated := pass.activated
    jumps := pass.jumps
    radio := if 0 ≤ pass.radio then some (pass.radio ≠ 0) else state.radio
    scheduled :=
      if 0 < pass.count then if run.cron then state.scheduled else true
      else false
    fastnat := pass.iptActive = 0 }

/-! ## What a schedule covers -/

def Rule.Selects (rule : Rule) (day : Fin 7) : Prop :=
  rule.schedDow.getLsbD day.val = true

/-- A rule covers, for each selected day, the time from its begin to its end.
When the end is not behind the begin, the time runs past midnight into the next
day.  A negative begin or end means all day. -/
def Rule.Covers (rule : Rule) (day : Fin 7) (mins : ℤ) : Prop :=
  if rule.schedBegin < 0 ∨ rule.schedEnd < 0 then rule.Selects day
  else if rule.schedBegin < rule.schedEnd then
    rule.Selects day ∧ rule.schedBegin ≤ mins ∧ mins < rule.schedEnd
  else
    (rule.Selects day ∧ rule.schedBegin ≤ mins) ∨
      ∃ before, before + 1 = day ∧ rule.Selects before ∧ mins < rule.schedEnd

theorem and_shiftLeft_ne_zero {width : ℕ} (value : BitVec width) {index : ℕ}
    (hindex : index < width) :
    value &&& 1#(width) <<< index ≠ 0 ↔ value.getLsbD index = true := by
  rw [← BitVec.twoPow_eq, BitVec.and_twoPow]
  cases value.getLsbD index with
  | true =>
    simp only [if_true, iff_true]
    intro hzero
    have hbit := congrArg (fun value => value.getLsbD index) hzero
    simp [hindex] at hbit
  | false => simp

theorem dayBefore_shiftLeft (before : Fin 7) :
    dayBefore (1#32 <<< (before + 1).val) = 1#32 <<< before.val := by
  fin_cases before <;> decide

theorem selects_iff (rule : Rule) (day : Fin 7) :
    rule.schedDow &&& 1#32 <<< day.val ≠ 0 ↔ rule.Selects day :=
  and_shiftLeft_ne_zero rule.schedDow (by omega)

/-- `in_sched` tells whether the schedule covers the time. -/
theorem inSched_iff (rule : Rule) (day : Fin 7) (mins : ℤ) :
    inSched mins (1#32 <<< day.val) rule = true ↔ rule.Covers day mins := by
  obtain ⟨before, rfl⟩ : ∃ before, before + 1 = day := ⟨day - 1, by simp⟩
  rw [inSched, Rule.Covers, dayBefore_shiftLeft,
    BitVec.and_comm (1#32 <<< (before + 1).val),
    BitVec.and_comm (1#32 <<< before.val)]
  simp only [← selects_iff, add_left_inj, exists_eq_left]
  split_ifs with hday hbegin htoday
  · exact decide_eq_true_iff
  · exact decide_eq_true_iff
  · exact ⟨fun _ => .inl htoday, fun _ => rfl⟩
  · rw [decide_eq_true_iff, or_iff_right htoday]

/-! ## Runs on a Tuesday -/

/-- Tuesday, 05:30. -/
def tuesday : Run :=
  ⟨⟨1700000000, 2, 5, 30⟩, fun _ => true, true⟩

/-- A run by cron on a Tuesday. -/
def atHour (hour : Fin 24) : Run :=
  ⟨⟨1700000000, 2, hour, 0⟩, fun _ => true, true⟩

end Tomato64.Restrict
