import Mathlib.Order.Bounds.Basic

/-!
# The next run of a dynamic DNS update

`update` leaves a cron job behind, for the next check of an external address
or for the retry after a failure.  The job names a minute and no hour, so cron
runs it once in every hour.
-/

namespace Tomato64.Ddns

/-- The settings of one entry, with the numbers `nvram_get_int` reads.  The
settings table lets `cktime` be 5 to 99999, and it is 0 while it is unset. -/
structure Entry where
  cktime : ℤ
  errors : ℤ
  external : Bool
  cktime_range : cktime = 0 ∨ 5 ≤ cktime ∧ cktime ≤ 99999

/-- A call of `update` that gets as far as running `mdu`: the exit status, the
time, and whether the cache that `mdu` leaves starts with a number and a
comma. -/
structure Call where
  force : Bool
  exitcode : ℤ
  cached : Bool
  now : ℤ

structure Job where
  interval : ℤ
  tmMin : ℤ
  /-- The two numbers of the `#RETRY` message. -/
  retry : Option (ℤ × ℤ)

/-- The minutes of local time up to `time`. -/
def minuteOf (offset time : ℤ) : ℤ :=
  (time + offset) / 60

/-- The errors counted when `update` reaches `SCHED`, if it does. -/
def schedErrors (entry : Entry) (call : Call) : Option ℤ :=
  if call.exitcode = 1 ∨ call.exitcode = 2 then
    if call.force then some 0
    else
      let errors := if entry.errors + 1 < 1 then 1 else entry.errors + 1
      if errors ≥ 10 then none else some errors
  else if call.cached && entry.external then some 0
  else none

/-- `nvram_get_int(s) ? nvram_get_int(s) : 10` -/
def interval (entry : Entry) : ℤ :=
  if entry.cktime ≠ 0 then entry.cktime else 10

def sched (offset : ℤ) (entry : Entry) (call : Call) (errors : ℤ) : Job :=
  let n := if call.exitcode = 2 then 30 else interval entry + errors * 2
  { interval := n
    tmMin := minuteOf offset (call.now + n * 60) % 60
    retry := if call.exitcode = 1 ∨ call.exitcode = 2 then some (n, errors)
      else none }

/-- The job that `update` installs, with a fixed offset from UTC. -/
def update (offset : ℤ) (entry : Entry) (call : Call) : Option Job :=
  (schedErrors entry call).map (sched offset entry call)

/-! ## Cron -/

/-- The minutes after `now` at which cron runs a job `tmMin * * * *`. -/
def firings (tmMin now : ℤ) : Set ℤ :=
  {minute | now < minute ∧ minute % 60 = tmMin}

theorem isLeast_firings_iff (now n : ℤ) :
    IsLeast (firings ((now + n) % 60) now) (now + n) ↔ 1 ≤ n ∧ n ≤ 60 := by
  constructor
  · rintro ⟨⟨hlater, -⟩, hleast⟩
    refine ⟨by omega, ?_⟩
    -- an hour earlier the same minute is still ahead
    by_contra hlong
    have hhour : now + n - 60 ∈ firings ((now + n) % 60) now :=
      ⟨by omega, by omega⟩
    have := hleast hhour
    omega
  · rintro ⟨hpositive, hshort⟩
    refine ⟨⟨by omega, rfl⟩, ?_⟩
    rintro minute ⟨hlater, hminute⟩
    omega

theorem minuteOf_add (offset time n : ℤ) :
    minuteOf offset (time + n * 60) = minuteOf offset time + n := by
  unfold minuteOf
  omega

/-- The job first runs when as many minutes have passed as were computed. -/
def OnTime (now : ℤ) (job : Job) : Prop :=
  IsLeast (firings job.tmMin now) (now + job.interval)

/-- The server is down, no job is due, or the interval with two minutes for
each error stays within an hour. -/
def WithinHour (entry : Entry) (call : Call) : Prop :=
  if call.exitcode = 2 then True
  else if call.exitcode = 1 then
    if call.force then interval entry ≤ 60
    else 9 ≤ entry.errors ∨ interval entry + max 1 (entry.errors + 1) * 2 ≤ 60
  else call.cached = false ∨ entry.external = false ∨ interval entry ≤ 60

theorem one_le_interval (entry : Entry) : 1 ≤ interval entry := by
  have hrange := entry.cktime_range
  unfold interval
  split <;> omega

theorem onTime_sched_iff (offset : ℤ) (entry : Entry) (call : Call)
    {errors : ℤ} (herrors : 0 ≤ errors) :
    OnTime (minuteOf offset call.now) (sched offset entry call errors) ↔
      call.exitcode = 2 ∨ interval entry + errors * 2 ≤ 60 := by
  have hinterval := one_le_interval entry
  simp only [OnTime, sched, minuteOf_add, isLeast_firings_iff]
  by_cases hdown : call.exitcode = 2
  · simp [hdown]
  · simp only [hdown, if_false, false_or]
    omega

theorem schedErrors_nonneg {entry : Entry} {call : Call} :
    ∀ errors ∈ schedErrors entry call, 0 ≤ errors := by
  unfold schedErrors
  grind

/-- The job of a call is on time exactly if it is due within the hour. -/
theorem update_onTime_iff (offset : ℤ) (entry : Entry) (call : Call) :
    (∀ job ∈ update offset entry call,
      OnTime (minuteOf offset call.now) job) ↔ WithinHour entry call := by
  have hjob : (∀ job ∈ update offset entry call,
      OnTime (minuteOf offset call.now) job) ↔
      ∀ errors ∈ schedErrors entry call,
        call.exitcode = 2 ∨ interval entry + errors * 2 ≤ 60 := by
    unfold update
    rw [Option.forall_mem_map]
    apply forall₂_congr
    intro errors herrors
    exact onTime_sched_iff offset entry call (schedErrors_nonneg errors herrors)
  rw [hjob]
  unfold schedErrors WithinHour
  by_cases hdown : call.exitcode = 2
  · simp [hdown]
  by_cases hfailed : call.exitcode = 1
  swap
  · cases call.cached <;> cases entry.external <;> simp [hfailed, hdown]
  cases call.force
  swap
  · simp [hfailed]
  have hcount : (if entry.errors + 1 < 1 then 1 else entry.errors + 1) =
      max 1 (entry.errors + 1) := by
    split <;> omega
  simp only [hcount, hfailed]
  by_cases hstandby : 10 ≤ max 1 (entry.errors + 1)
  · have hmany : 9 ≤ entry.errors := by omega
    simp [hstandby, hmany]
  · have hfew : ¬ 9 ≤ entry.errors := by omega
    simp [hstandby, hfew]

/-- Two hours are configured and the check runs after one. -/
theorem update_checks_early :
    ¬ ∀ job ∈ update 0 ⟨120, 0, true, by decide⟩ ⟨false, 0, true, 0⟩,
      OnTime (minuteOf 0 0) job := by
  intro htime
  have hhour : (60 : ℤ) ∈ firings 0 0 := ⟨by decide, by decide⟩
  exact absurd ((htime _ rfl).2 hhour) (by decide)

end Tomato64.Ddns
