import Tomato64.Core.Run
import Tomato64.Core.Stdio
import Tomato64.Quota.Ids

/-!
# Restarting the firewall

`start_firewall` saves the counters and flushes the quota chains, writes the
tables of both families, and hands them to `iptables-restore`, which it calls
up to three times.  `start_quotas` then removes the usage files of rules that
are gone.

The id file ties these parts together.  It is written with the tables, read by
the flush of the next restart, and read again when usage files are removed.
-/

namespace Tomato64.QuotaRules

open Text ActiveArgs Stdio

/-- How a call of `iptables-restore` ends, as far as it is not up to the ids:
before it gets to the mangle table, with a mangle table that is refused, with
a later table that is refused, or with all tables committed. -/
inductive Outcome where
  | early
  | refused
  | late
  | success
deriving DecidableEq, Repr

/-- One call: the ids in its mangle table and those that live rules hold. -/
structure Attempt where
  ids : List Bytes
  held : List Bytes
  outcome : Outcome
deriving DecidableEq, Repr

variable (attempt : Attempt)

/-- The kernel is asked for an id that is taken. -/
def Attempt.duplicate : Bool :=
  attempt.outcome ≠ .early && attempt.ids.any (· ∈ attempt.held)

def Attempt.commits : Bool :=
  !attempt.duplicate &&
    (attempt.outcome = .late || attempt.outcome = .success)

def Attempt.succeeds : Bool :=
  !attempt.duplicate && attempt.outcome = .success

/-- A committed mangle table replaces the rules of the old one. -/
def Attempt.heldAfter : List Bytes :=
  if attempt.commits then attempt.ids else attempt.held

/-- The calls, up to the first that succeeds, and the ids held behind them. -/
def restore (ids : List Bytes) :
    List Outcome → List Bytes → List Attempt × List Bytes
  | [], held => ([], held)
  | outcome :: outcomes, held =>
    let attempt : Attempt := ⟨ids, held, outcome⟩
    if attempt.succeeds then ([attempt], attempt.heldAfter)
    else
      let more := restore ids outcomes attempt.heldAfter
      (attempt :: more.1, more.2)

def restoreAttempts : ℕ := 3

/-! ## Usage files -/

def quotaIdsDir : Bytes := bytes "/var/lib/quotas"

def quotaBackupDir (env : Env) : Bytes :=
  let path := env.nvram (bytes "quota_path")
  snprintf 80 (if path ≠ [] then path else quotaIdsDir)

/-- The id on a line, behind blanks and up to the end of the line. -/
def lineId (line : Bytes) : Bytes :=
  (line.dropWhile fun char => char = 32 || char = 9).takeWhile fun char =>
    char ≠ 13 && char ≠ 10

def lineSize : ℤ := 80

def quotaIdIsLive (file name : Bytes) : Bool :=
  (lines (show 1 < lineSize by decide) file).any fun line =>
    lineId line ≠ [] && (lineId line).head? ≠ some 35 && lineId line = name

def usageId (name : Bytes) : Option Bytes :=
  let behind := name.drop 6
  let digits := behind.takeWhile isDigit
  if (bytes "quota_").isPrefixOf name ∧ digits ≠ [] ∧
      behind.drop digits.length ∈
        [bytes "_d", bytes "_u", bytes "_c"] then some digits
  else none

/-- The usage files that are not in the id file. -/
def prunes (file name : Bytes) : Bool :=
  (usageId name).isSome && !quotaIdIsLive file name

/-! ## The system -/

/-- What a restart finds and meets. -/
structure Restart where
  env : Env
  anyWanUp : Bool
  /-- Whether the file for a family's tables can be opened. -/
  opens : Family → Bool
  outcome : Family → ℕ → Outcome
  /-- The usage files that are written when the counters are saved. -/
  saved : List Bytes

structure System where
  idFile : Option Bytes
  held : Family → List Bytes
  /-- The files in each directory. -/
  files : Bytes → List Bytes
  /-- Every call of `iptables-restore` so far. -/
  attempts : List Attempt
  /-- Every file that was removed, with the `quota_rules` of the time. -/
  removed : List (Bytes × Bytes)

variable (restart : Restart) (system : System)

/-- Counters are saved and chains flushed if there is an id file. -/
def quotasPreRestore : System :=
  let dir := quotaBackupDir restart.env
  if system.idFile = none then system
  else
    { system with
      held := fun family =>
        if family = .ipv6 ∧ restart.env.ipv6Enabled = false then
          system.held family
        else []
      files := fun other =>
        if other = dir then system.files dir ++ restart.saved
        else system.files other }

/-- The id file behind the generation of the tables. -/
def generatedFile (old : Option Bytes) : Option Bytes :=
  if restart.anyWanUp then (iptQuotas restart.env).ids else old

/-- The ids in the new mangle table of a family. -/
def generatedIds (family : Family) : List Bytes :=
  if restart.anyWanUp then familyIds restart.env family else []

def writeTables : System :=
  { system with idFile := generatedFile restart system.idFile }

/-- Handing the tables of a family over. -/
def restoreFamily (family : Family) (system : System) : System :=
  let result := restore (generatedIds restart family)
    ((List.range restoreAttempts).map (restart.outcome family))
    (system.held family)
  { system with
    held := fun other => if other = family then result.2 else system.held other
    attempts := system.attempts ++ result.1 }

/-- Without IPv6 its tables are flushed. -/
def restoreIpv6 : System :=
  if restart.env.ipv6Enabled then restoreFamily restart .ipv6 system
  else
    { system with
      held := fun family => if family = .ipv6 then [] else system.held family }

def quotaPruneBackups (file : Bytes) (system : System) : System :=
  let dir := quotaBackupDir restart.env
  { system with
    files := fun other =>
      if other = dir then (system.files dir).filter fun name =>
        !prunes file name
      else system.files other
    removed := system.removed ++ ((system.files dir).filter (prunes file)).map
      (·, restart.env.nvram (bytes "quota_rules")) }

def startQuotas : System :=
  if restart.env.getInt "quota_enable" = 0 then system
  else
    match system.idFile with
    | none => system
    | some file => quotaPruneBackups restart file system

/-- The restart gives up if a file for the tables cannot be opened. -/
def givesUp : Bool :=
  !restart.opens .ipv4 ||
    (restart.env.ipv6Enabled && !restart.opens .ipv6)

def startFirewall : System :=
  let flushed := quotasPreRestore restart system
  if givesUp restart then flushed
  else
    startQuotas restart
      (restoreIpv6 restart
        (restoreFamily restart .ipv4 (writeTables restart flushed)))

/-- Restarts, and whatever else happens to the files in between. -/
inductive Event where
  | restart (restart : Restart)
  | changeFiles (files : Bytes → List Bytes)

def react : Event → System
  | .restart restart => startFirewall restart system
  | .changeFiles files => { system with files }

/-- Nothing has been generated yet. -/
def System.boot (files : Bytes → List Bytes) : System where
  idFile := none
  held := fun _ => []
  files := files
  attempts := []
  removed := []

end Tomato64.QuotaRules
