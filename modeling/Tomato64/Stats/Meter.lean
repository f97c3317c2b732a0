import Mathlib.Logic.Function.Basic
import Tomato64.Core.Scan
import Tomato64.Stats.History

/-!
# Meters

A meter turns the readings of one counter into the bytes of each interval: for
`rstats` the counters of an interface, for `cstats` those of a host.  The first
reading only synchronises it.  Later readings are accounted once an interval
has passed, and are put into a ring of samples.

Both daemons have this code.  `rstats` also takes its first reading after a
start as the reference, which is `restarted` here.
-/

namespace Tomato64.Stats

open Text

def interval : ℤ := 60

def maxNspeed : ℕ := 1440

def maxRollover : UInt64 := 3750 * 1024 * 1024

/-- The fields of `speed_t` and `Node` that both daemons treat alike. -/
structure Meter where
  utime : ℤ
  samples : ℕ → Counters
  last : Counters
  tail : ℤ
  sync : ℤ

/-- The memory of a new entry, with the synchronisation asked for. -/
def Meter.new (uptime : ℤ) : Meter :=
  ⟨uptime, fun _ => ⟨0, 0⟩, ⟨0, 0⟩, 0, 1⟩

/-- What became of a reading. -/
inductive Outcome where
  | synced
  | early
  | counted (diff : Counters)
deriving DecidableEq

/-- The bytes that go on to the history; an early reading ends there. -/
def Outcome.bytes : Outcome → Option Counters
  | .synced => some ⟨0, 0⟩
  | .early => none
  | .counted diff => some diff

/-- The bytes between two readings of one direction.  A counter that went
backwards has rolled over, unless that would be too much or the connection is
`fresh`. -/
def difference (fresh : Bool) (counter last : UInt64) : UInt64 :=
  if counter < last then
    let diff := (0xFFFFFFFFFFFFFFFF - last + 1) + counter
    if maxRollover < diff then 0 else if fresh then 0 else diff
  else counter - last

def differences (fresh : Bool) (counter last : Counters) : Counters :=
  ⟨difference fresh counter.rx last.rx, difference fresh counter.tx last.tx⟩

/-- A `long` stored in an `int`. -/
def intOf (value : ℤ) : ℤ :=
  value.bmod (2 ^ 32)

variable (sample : Counters) (meter : Meter)

/-- One sample: `tail = (tail + 1) % MAX_NSPEED` and a store there.  An overflow
of `tail` and a store outside the array have no result. -/
def pushSample : Option Meter :=
  let tail := (meter.tail + 1).tmod maxNspeed
  if meter.tail + 1 < 2 ^ 31 ∧ 0 ≤ tail ∧ tail < maxNspeed then
    some { meter with
      tail := tail
      samples := Function.update meter.samples tail.toNat sample }
  else none

def pushSamples (sample : Counters) : ℕ → Meter → Option Meter
  | 0, meter => some meter
  | count + 1, meter => (pushSample sample meter).bind (pushSamples sample count)

def share (diff : Counters) (count : ℕ) : Counters :=
  ⟨diff.rx / UInt64.ofNat count, diff.tx / UInt64.ofNat count⟩

/-- The number of whole intervals since the last reading that counted. -/
def Meter.intervals (uptime : ℤ) : ℤ :=
  intOf ((uptime - meter.utime).tdiv interval)

def read (restarted : Bool) (uptime : ℤ) (fresh : Bool) (counter : Counters)
    (meter : Meter) : Option (Outcome × Meter) :=
  if meter.sync ≠ 0 then
    some (.synced, { meter with sync := -1, last := counter })
  else
    let last := if restarted then counter else meter.last
    let count := meter.intervals uptime
    if count < 1 then
      some (.early, { meter with sync := -1, last := last })
    else
      let diff := differences fresh counter last
      let marked := { meter with
        sync := -1
        utime := meter.utime + count * interval
        last := counter }
      (pushSamples (share diff count.toNat) count.toNat marked).map
        (Outcome.counted diff, ·)

/-- The loop of `save_speedjs` over the samples, as far as its accesses go. -/
def sampleAccesses : ℕ → ℤ → Option Unit
  | 0, _ => some ()
  | count + 1, position =>
    let next := (position + 1).tmod maxNspeed
    if position + 1 < 2 ^ 31 ∧ 0 ≤ next ∧ next < maxNspeed then
      sampleAccesses count next
    else none

/-! ## Accesses in range -/

/-- A position from which the next sample is stored inside the array. -/
def Meter.InRange : Prop :=
  -1 ≤ meter.tail ∧ meter.tail < 2 ^ 31 - 1

theorem new_inRange (uptime : ℤ) : (Meter.new uptime).InRange := by
  constructor
  · change (-1 : ℤ) ≤ 0
    decide
  · change (0 : ℤ) < 2 ^ 31 - 1
    decide

theorem next_inRange {position : ℤ} (hlow : -1 ≤ position) :
    0 ≤ (position + 1).tmod maxNspeed ∧
      (position + 1).tmod maxNspeed < maxNspeed := by
  have hmod : (position + 1).tmod maxNspeed = (position + 1) % maxNspeed :=
    Int.tmod_eq_emod_of_nonneg (by omega)
  rw [hmod]
  exact ⟨Int.emod_nonneg _ (by decide), Int.emod_lt_of_pos _ (by decide)⟩

theorem pushSample_inRange {meter : Meter} (hrange : meter.InRange) :
    ∃ next, pushSample sample meter = some next ∧ next.InRange ∧
      next.sync = meter.sync ∧ next.last = meter.last ∧
      next.utime = meter.utime := by
  obtain ⟨hlow, hhigh⟩ := hrange
  obtain ⟨hnonneg, hlt⟩ := next_inRange hlow
  refine ⟨_, if_pos ⟨by omega, hnonneg, hlt⟩, ⟨?_, ?_⟩, rfl, rfl, rfl⟩
  · change -1 ≤ (meter.tail + 1).tmod maxNspeed
    omega
  · change (meter.tail + 1).tmod maxNspeed < 2 ^ 31 - 1
    have hsmall : (maxNspeed : ℤ) < 2 ^ 31 - 1 := by decide
    omega

theorem pushSamples_inRange (count : ℕ) (meter : Meter)
    (hrange : meter.InRange) :
    ∃ next, pushSamples sample count meter = some next ∧ next.InRange ∧
      next.sync = meter.sync ∧ next.last = meter.last ∧
      next.utime = meter.utime := by
  induction count generalizing meter with
  | zero => exact ⟨meter, rfl, hrange, rfl, rfl, rfl⟩
  | succ count ih =>
    obtain ⟨pushed, hpushed, hpushedRange, hsync, hlast, hutime⟩ :=
      pushSample_inRange sample hrange
    obtain ⟨next, hnext, hnextRange, hnextSync, hnextLast, hnextUtime⟩ :=
      ih pushed hpushedRange
    refine ⟨next, ?_, hnextRange, hnextSync.trans hsync,
      hnextLast.trans hlast, hnextUtime.trans hutime⟩
    rw [pushSamples, hpushed, Option.bind_some, hnext]

/-- A reading marks the meter, and synchronises it, defers the bytes or
accounts them. -/
structure Reading (restarted : Bool) (uptime : ℤ) (fresh : Bool)
    (counter : Counters) (meter : Meter) (outcome : Outcome) (next : Meter) :
    Prop where
  inRange : next.InRange
  marked : next.sync = -1
  synced : meter.sync ≠ 0 → outcome = .synced ∧ next.last = counter
  early : meter.sync = 0 → meter.intervals uptime < 1 →
    outcome = .early ∧
      next.last = if restarted then counter else meter.last
  counted : meter.sync = 0 → 1 ≤ meter.intervals uptime →
    outcome = .counted (differences fresh counter
      (if restarted then counter else meter.last)) ∧ next.last = counter

theorem read_inRange (restarted : Bool) (uptime : ℤ) (fresh : Bool)
    (counter : Counters) {meter : Meter} (hrange : meter.InRange) :
    ∃ outcome next, read restarted uptime fresh counter meter =
        some (outcome, next) ∧
      Reading restarted uptime fresh counter meter outcome next := by
  unfold read
  by_cases hsync : meter.sync ≠ 0
  · rw [if_pos hsync]
    exact ⟨_, _, rfl, hrange, rfl, fun _ => ⟨rfl, rfl⟩,
      fun hzero => (hsync hzero).elim, fun hzero => (hsync hzero).elim⟩
  rw [if_neg hsync]
  dsimp only
  by_cases hearly : meter.intervals uptime < 1
  · rw [if_pos hearly]
    exact ⟨_, _, rfl, hrange, rfl, fun hne => (hsync hne).elim,
      fun _ _ => ⟨rfl, rfl⟩, fun _ hcount => absurd hearly (by omega)⟩
  rw [if_neg hearly]
  let last := if restarted then counter else meter.last
  let diff := differences fresh counter last
  let marked := { meter with
    sync := -1
    utime := meter.utime + meter.intervals uptime * interval
    last := counter }
  obtain ⟨next, hnext, hnextRange, hnextSync, hnextLast, -⟩ :=
    pushSamples_inRange
      (share diff (meter.intervals uptime).toNat)
      (meter.intervals uptime).toNat marked hrange
  refine ⟨_, next, ?_, hnextRange, hnextSync, fun hne => (hsync hne).elim,
    fun _ hfew => (hearly hfew).elim, fun _ _ => ⟨rfl, hnextLast⟩⟩
  rw [hnext, Option.map_some]

section
variable {restarted fresh : Bool} {uptime : ℤ} {counter : Counters}
variable {meter next : Meter} {outcome : Outcome}

theorem Reading.last_of_synced
    (hreading : Reading restarted uptime fresh counter meter outcome next)
    (hsynced : outcome = .synced) : next.last = counter := by
  by_cases hsync : meter.sync = 0
  · by_cases hearly : meter.intervals uptime < 1
    · rw [(hreading.early hsync hearly).1] at hsynced
      cases hsynced
    · rw [(hreading.counted hsync (by omega)).1] at hsynced
      cases hsynced
  · exact (hreading.synced hsync).2

theorem Reading.last_eq
    (hreading : Reading false uptime fresh counter meter outcome next)
    (hsync : meter.sync = 0) :
    (outcome = .early ∧ next.last = meter.last) ∨ next.last = counter := by
  by_cases hearly : meter.intervals uptime < 1
  · exact .inl (hreading.early hsync hearly)
  · exact .inr (hreading.counted hsync (by omega)).2

end

theorem sampleAccesses_inRange (count : ℕ) {position : ℤ}
    (hlow : -1 ≤ position) (hhigh : position < 2 ^ 31 - 1) :
    sampleAccesses count position = some () := by
  induction count generalizing position with
  | zero => rfl
  | succ count ih =>
    obtain ⟨hnonneg, hlt⟩ := next_inRange hlow
    have hsmall : (maxNspeed : ℤ) < 2 ^ 31 - 1 := by decide
    rw [sampleAccesses, if_pos ⟨by omega, hnonneg, hlt⟩]
    exact ih (by omega) (by omega)

/-- Without a rollover the bytes and the old reading make the new one. -/
theorem toNat_difference (fresh : Bool) {counter last : UInt64}
    (hle : last.toNat ≤ counter.toNat) :
    last.toNat + (difference fresh counter last).toNat = counter.toNat := by
  have hnot : ¬ counter < last := by
    rw [UInt64.lt_iff_toNat_lt]
    omega
  rw [difference, if_neg hnot,
    UInt64.toNat_sub_of_le counter last (UInt64.le_iff_toNat_le.mpr hle)]
  omega

end Tomato64.Stats
