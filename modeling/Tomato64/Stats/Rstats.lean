import Tomato64.Core.Run
import Tomato64.Shared.Misc
import Tomato64.Stats.Meter

/-!
# The table of `rstats`

Once a minute `calc` reads the counters of all interfaces.  An interface has a
row in the table `speed`, found by its name, and the WAN unit that it belongs to
is kept beside the table, in `speed_rtd`.  After the readings, rows that no
interface was found for are removed when they are old or excluded; the rows
behind a removed one move up, and the scan goes on behind the first of them.

The record of what `calc` did with each reading is part of its result here.
-/

namespace Tomato64.Rstats

open List Shared Stats Text

def maxSpeedIf : ℕ := 64

/-- The characters that fit into `speed_t.ifname`. -/
def ifnameLength : ℕ := 11

/-- `speed_t` -/
structure Row where
  ifname : Bytes
  meter : Meter

/-- `speed_runtime_t` -/
structure Rtd where
  wanUnit : ℤ
  fromIfaceX : Bool
deriving DecidableEq

/-- The rows in use are the first `speed_count` ones, while `speed_rtd` is one
array. -/
structure State where
  rows : List Row
  rtd : ℕ → Rtd
  daily : Ring 62
  monthly : Ring 121
  restarted : Bool

def State.start : State :=
  ⟨[], fun _ => ⟨0, false⟩, Ring.empty 62, Ring.empty 121, true⟩

/-- A line of `/proc/net/dev`. -/
structure Interface where
  ifname : Bytes
  counter : Counters

/-- The part of a broken-down time that the dates are made of. -/
structure Tm where
  year : UInt32
  mon : UInt32
  mday : UInt32

/-- What `calc` finds: the time, the settings, the state of the WAN
connections, and the interfaces with names as the kernel gives them. -/
structure Snapshot where
  uptime : ℤ
  now : ℤ
  localtime : ℤ → Tm
  nvram : Nvram
  checkWanup : Bytes → Bool
  checkWanupTime : Bytes → ℤ
  interfaces : List Interface
  named : ∀ interface ∈ interfaces,
    1 ≤ interface.ifname.length ∧ interface.ifname.length ≤ 15
  distinct : (interfaces.map (·.ifname)).Nodup

/-- What `calc` did with the reading of an interface. -/
structure Account where
  ifname : Bytes
  counter : Counters
  outcome : Outcome
deriving DecidableEq

/-! ## One reading -/

section
variable (snapshot : Snapshot)

def Snapshot.exclude : Bytes :=
  snapshot.nvram (bytes "rstats_exclude")

def monitored (ifname : Bytes) : Bool :=
  !(ifname = bytes "lo" || findWord snapshot.exclude ifname)

/-- The row of an interface, which may be a new one; none in a full table. -/
def place (ifname : Bytes) (rows : List Row) : Option (ℕ × List Row) :=
  match rows.findIdx? (·.ifname = ifname) with
  | some index => some (index, rows)
  | none =>
    if maxSpeedIf ≤ rows.length then none
    else some (rows.length,
      rows ++ [⟨ifname.take ifnameLength, Meter.new snapshot.uptime⟩])

/-- The WAN unit of an interface, by the interface in use and then by the
configured one. -/
def resolve (nvram : Nvram) (ifname : Bytes) (rtd : Rtd) : Rtd :=
  let unit := getWanUnitWithValue nvram (bytes "_iface") ifname
  if unit < 0 then
    let unit := getWanUnitWithValue nvram (bytes "_ifnameX") ifname
    ⟨unit, 0 < unit⟩
  else { rtd with wanUnit := unit }

def mapUnit (ifname : Bytes) (rtd : Rtd) : Rtd :=
  if rtd.wanUnit = 0 then resolve snapshot.nvram ifname rtd else rtd

/-- A connection that came up a moment ago. -/
def fresh (rtd : Rtd) : Bool :=
  let wanPrefix := getWanPrefix rtd.wanUnit
  snapshot.checkWanup wanPrefix &&
    snapshot.checkWanupTime wanPrefix < interval + 10

/-- Whether the bytes belong into the history. -/
def isWan (rtd : Rtd) : Bool :=
  let wanPrefix := getWanPrefix rtd.wanUnit
  0 < rtd.wanUnit && snapshot.nvram.int (bytes "ntp_ready") ≠ 0 &&
    if getWanxProto snapshot.nvram wanPrefix = .disabled then
      rtd.fromIfaceX && snapshot.nvram.int (wanPrefix ++ bytes "_islan") ≠ 0
    else !rtd.fromIfaceX

def xdaily : UInt32 :=
  let tms := snapshot.localtime snapshot.now
  tms.year <<< 16 ||| tms.mon <<< 8 ||| tms.mday

/-- The month, which starts on the day `rstats_offset`. -/
def xmonthly : UInt32 :=
  let offset := snapshot.nvram.int (bytes "rstats_offset")
  let day := if offset < 1 ∨ 31 < offset then 1 else offset
  let tms := snapshot.localtime
    (snapshot.now + (1 - day) * (60 * 60 * 24))
  tms.year <<< 16 ||| tms.mon <<< 8

def addHistory (rtd : Rtd) (counter : Counters) (state : State) :
    Option State :=
  if isWan snapshot rtd then do
    let daily ← bump state.daily (xdaily snapshot) counter
    let monthly ← bump state.monthly (xmonthly snapshot) counter
    return { state with daily := daily, monthly := monthly }
  else some state

/-- One line of `/proc/net/dev`. -/
def line (interface : Interface) (state : State) :
    Option (List Account × State) :=
  if !monitored snapshot interface.ifname then some ([], state)
  else
    match place snapshot interface.ifname state.rows with
    | none => some ([], state)
    | some (index, rows) => do
        let row ← rows[index]?
        let rtd := mapUnit snapshot interface.ifname (state.rtd index)
        let (outcome, meter) ← read state.restarted snapshot.uptime
          (fresh snapshot rtd) interface.counter row.meter
        let state := { state with
          rows := rows.set index { row with meter := meter }
          rtd := Function.update state.rtd index rtd }
        let account := ⟨interface.ifname, interface.counter, outcome⟩
        match outcome.bytes with
        | none => some ([account], state)
        | some counter =>
          (addHistory snapshot rtd counter state).map ([account], ·)

def lines : List Interface → State → Option (List Account × State)
  | [], state => some ([], state)
  | interface :: interfaces, state => do
      let (accounts, state) ← line snapshot interface state
      let (others, state) ← lines interfaces state
      return (accounts ++ others, state)

/-! ## The cleanup -/

/-- A row that goes when no interface was found for it. -/
def due (row : Row) : Bool :=
  10 * 60 < snapshot.uptime - row.meter.utime ||
    findWord snapshot.exclude row.ifname

def Row.setSync (row : Row) (sync : ℤ) : Row :=
  { row with meter := { row.meter with sync := sync } }

/-- The loop over the table.  After a removal the index moves on, so that the
row which took the place is not looked at. -/
def cleanup : List Row → List Row
  | [] => []
  | row :: rows =>
    if row.meter.sync = -1 then row.setSync 0 :: cleanup rows
    else if due snapshot row then
      match rows with
      | [] => []
      | skipped :: rows => skipped :: cleanup rows
    else row.setSync 1 :: cleanup rows

def State.calc (state : State) : Option (List Account × State) :=
  (lines snapshot snapshot.interfaces state).map fun (accounts, state) =>
    (accounts, { state with
      rows := cleanup snapshot state.rows
      restarted := false })

end

/-! ## What a line does -/

/-- All positions that are used as indices lie in their arrays. -/
structure State.InRange (state : State) : Prop where
  rows : ∀ row ∈ state.rows, row.meter.InRange
  count : state.rows.length ≤ maxSpeedIf
  daily : state.daily.InRange
  monthly : state.monthly.InRange

theorem start_inRange : State.start.InRange :=
  ⟨by simp [State.start], Nat.zero_le _, empty_inRange (by decide),
    empty_inRange (by decide)⟩

/-- The rows with that of an interface, and its place. -/
inductive Placed (snapshot : Snapshot) (ifname : Bytes) (rows : List Row) :
    ℕ → List Row → Row → Prop
  | found {index : ℕ} {row : Row} (hrow : rows[index]? = some row)
      (hname : row.ifname = ifname)
      (hfirst : rows.findIdx? (·.ifname = ifname) = some index) :
      Placed snapshot ifname rows index rows row
  | added (hnone : ∀ row ∈ rows, row.ifname ≠ ifname)
      (hcount : rows.length < maxSpeedIf) :
      Placed snapshot ifname rows rows.length
        (rows ++ [⟨ifname.take ifnameLength, Meter.new snapshot.uptime⟩])
        ⟨ifname.take ifnameLength, Meter.new snapshot.uptime⟩

variable (snapshot : Snapshot)

/-- An interface has its place, unless the table is full. -/
theorem place_cases (ifname : Bytes) (rows : List Row) :
    (∃ index placed row, place snapshot ifname rows = some (index, placed) ∧
      Placed snapshot ifname rows index placed row) ∨
    (place snapshot ifname rows = none ∧ maxSpeedIf ≤ rows.length ∧
      ∀ row ∈ rows, row.ifname ≠ ifname) := by
  cases hfind : rows.findIdx? (·.ifname = ifname) with
  | some index =>
    obtain ⟨hindex, hname, -⟩ := findIdx?_eq_some_iff_getElem.mp hfind
    refine .inl ⟨index, rows, _, by rw [place, hfind],
      .found (getElem?_eq_getElem hindex) (of_decide_eq_true hname) hfind⟩
  | none =>
    have hnone : ∀ row ∈ rows, row.ifname ≠ ifname := by
      simpa using findIdx?_eq_none_iff.mp hfind
    by_cases hfull : maxSpeedIf ≤ rows.length
    · exact .inr ⟨by rw [place, hfind]; exact if_pos hfull, hfull, hnone⟩
    · exact .inl ⟨_, _, _, by rw [place, hfind]; exact if_neg hfull,
        .added hnone (by omega)⟩

section
variable {snapshot : Snapshot} {ifname : Bytes} {rows placed : List Row}
variable {index : ℕ} {row : Row}

variable (hplaced : Placed snapshot ifname rows index placed row)
include hplaced

theorem Placed.getElem?_eq : placed[index]? = some row := by
  cases hplaced with
  | found hrow => exact hrow
  | added => exact getElem?_concat_length

theorem Placed.inRange (hrows : ∀ row ∈ rows, row.meter.InRange) :
    (∀ row ∈ placed, row.meter.InRange) := by
  cases hplaced with
  | found => exact hrows
  | added =>
    intro other hother
    rcases mem_append.mp hother with hold | hnew
    · exact hrows other hold
    · rw [mem_singleton.mp hnew]
      exact new_inRange snapshot.uptime

theorem Placed.count_le
    (hcount : rows.length ≤ maxSpeedIf) : placed.length ≤ maxSpeedIf := by
  cases hplaced with
  | found => exact hcount
  | added hnone hless =>
    rw [length_append]
    exact hless

omit hplaced

theorem addHistory_inRange (snapshot : Snapshot) (rtd : Rtd)
    (counter : Counters) {state : State} (hrange : state.InRange) :
    ∃ next, addHistory snapshot rtd counter state = some next ∧
      next.InRange ∧ next.rows = state.rows ∧ next.rtd = state.rtd ∧
      next.restarted = state.restarted := by
  by_cases hwan : isWan snapshot rtd
  swap
  · exact ⟨state, if_neg hwan, hrange, rfl, rfl, rfl⟩
  obtain ⟨daily, hdaily, hdailyRange⟩ :=
    bump_inRange (xdaily snapshot) counter hrange.daily
  obtain ⟨monthly, hmonthly, hmonthlyRange⟩ :=
    bump_inRange (xmonthly snapshot) counter hrange.monthly
  refine ⟨{ state with daily := daily, monthly := monthly }, ?_,
    ⟨hrange.rows, hrange.count, hdailyRange, hmonthlyRange⟩, rfl, rfl, rfl⟩
  simp only [addHistory, hwan, if_true, hdaily, hmonthly,
    Option.bind_eq_bind, Option.bind_some, Option.pure_def]

end

/-- What a line does: nothing, or a reading of the meter of its interface. -/
inductive LineEffect (snapshot : Snapshot) (interface : Interface)
    (state : State) : List Account → State → Prop
  | skipped
      (hskip : monitored snapshot interface.ifname = false ∨
        (maxSpeedIf ≤ state.rows.length ∧
          ∀ row ∈ state.rows, row.ifname ≠ interface.ifname)) :
      LineEffect snapshot interface state [] state
  | reading {index : ℕ} {placed : List Row} {row : Row} {outcome : Outcome}
      {meter : Meter} {fresh : Bool} {next : State}
      (hmonitored : monitored snapshot interface.ifname = true)
      (hplaced : Placed snapshot interface.ifname state.rows index placed row)
      (hreading : Reading state.restarted snapshot.uptime fresh
        interface.counter row.meter outcome meter)
      (hrows : next.rows = placed.set index ⟨row.ifname, meter⟩)
      (hrtd : next.rtd = Function.update state.rtd index
        (mapUnit snapshot interface.ifname (state.rtd index)))
      (hrestarted : next.restarted = state.restarted) :
      LineEffect snapshot interface state
        [⟨interface.ifname, interface.counter, outcome⟩] next

theorem line_effect (interface : Interface)
    {state : State} (hrange : state.InRange) :
    ∃ accounts next, line snapshot interface state = some (accounts, next) ∧
      next.InRange ∧ LineEffect snapshot interface state accounts next := by
  unfold line
  cases hmonitored : monitored snapshot interface.ifname with
  | false => exact ⟨[], state, rfl, hrange, .skipped (.inl hmonitored)⟩
  | true =>
    rcases place_cases snapshot interface.ifname state.rows with
      ⟨index, placed, row, hplace, hplaced⟩ | ⟨hplace, hfull, hnone⟩
    swap
    · rw [hplace]
      exact ⟨[], state, rfl, hrange, .skipped (.inr ⟨hfull, hnone⟩)⟩
    set rtd := mapUnit snapshot interface.ifname (state.rtd index) with hrtd
    obtain ⟨outcome, meter, hread, hreading⟩ :=
      read_inRange state.restarted snapshot.uptime (fresh snapshot rtd)
        interface.counter (hplaced.inRange hrange.rows row
          (mem_of_getElem? hplaced.getElem?_eq))
    set read : State := { state with
      rows := placed.set index { row with meter := meter }
      rtd := Function.update state.rtd index rtd } with hreadState
    have hreadRange : read.InRange := by
      refine ⟨?_, ?_, hrange.daily, hrange.monthly⟩
      · intro other hother
        rcases mem_or_eq_of_mem_set hother with hold | rfl
        · exact hplaced.inRange hrange.rows other hold
        · exact hreading.inRange
      · change (placed.set index _).length ≤ maxSpeedIf
        rw [length_set]
        exact hplaced.count_le hrange.count
    simp only [Bool.not_true, Bool.false_eq_true, if_false, hplace,
      hplaced.getElem?_eq, Option.bind_eq_bind, Option.bind_some, ← hrtd,
      hread, ← hreadState]
    cases hbytes : outcome.bytes with
    | none =>
      exact ⟨_, read, rfl, hreadRange,
        .reading hmonitored hplaced hreading rfl rfl rfl⟩
    | some counter =>
      obtain ⟨next, hnext, hnextRange, hrows, hrtdNext, hrestarted⟩ :=
        addHistory_inRange snapshot rtd counter hreadRange
      refine ⟨_, next, by dsimp only; rw [hnext]; rfl, hnextRange,
        .reading hmonitored hplaced hreading hrows hrtdNext hrestarted⟩

/-- What the lines of a snapshot do, one after the other. -/
inductive LinesEffect (snapshot : Snapshot) :
    List Interface → State → List Account → State → Prop
  | nil (state : State) : LinesEffect snapshot [] state [] state
  | cons {interface : Interface} {interfaces : List Interface}
      {state next final : State} {accounts others : List Account}
      (hline : LineEffect snapshot interface state accounts next)
      (hlines : LinesEffect snapshot interfaces next others final) :
      LinesEffect snapshot (interface :: interfaces) state
        (accounts ++ others) final

theorem lines_effect (interfaces : List Interface)
    {state : State} (hrange : state.InRange) :
    ∃ accounts next, lines snapshot interfaces state = some (accounts, next) ∧
      next.InRange ∧ LinesEffect snapshot interfaces state accounts next := by
  induction interfaces generalizing state with
  | nil => exact ⟨[], state, rfl, hrange, .nil state⟩
  | cons interface interfaces ih =>
    obtain ⟨accounts, next, hline, hnextRange, heffect⟩ :=
      line_effect snapshot interface hrange
    obtain ⟨others, final, hlines, hfinalRange, hothers⟩ := ih hnextRange
    refine ⟨accounts ++ others, final, ?_, hfinalRange, .cons heffect hothers⟩
    simp only [lines, hline, hlines, Option.bind_eq_bind, Option.bind_some,
      Option.pure_def]

/-! ## What the cleanup does -/

variable (rows : List Row) {row : Row}

theorem cleanup_marked {snapshot : Snapshot} (hmarked : row.meter.sync = -1) :
    cleanup snapshot (row :: rows) =
      row.setSync 0 :: cleanup snapshot rows := by
  rw [cleanup.eq_def]
  exact if_pos hmarked

theorem cleanup_missing {snapshot : Snapshot}
    (hmarked : ¬ row.meter.sync = -1) (hdue : ¬ due snapshot row = true) :
    cleanup snapshot (row :: rows) =
      row.setSync 1 :: cleanup snapshot rows := by
  rw [cleanup.eq_def]
  exact (if_neg hmarked).trans (if_neg hdue)

theorem setSync_inRange (sync : ℤ) (hrange : row.meter.InRange) :
    (row.setSync sync).meter.InRange :=
  hrange

/-- Every row behind the cleanup is one of before, with its mark changed at
most. -/
theorem mem_cleanup {snapshot : Snapshot} {rows : List Row}
    (hrow : row ∈ cleanup snapshot rows) :
    ∃ before ∈ rows, row = before ∨ ∃ sync, row = before.setSync sync := by
  fun_induction cleanup snapshot rows with
  | case1 => cases hrow
  | case2 head rows hmarked ih =>
    rcases mem_cons.mp hrow with rfl | hrow
    · exact ⟨head, mem_cons_self, .inr ⟨0, rfl⟩⟩
    · obtain ⟨before, hbefore, heq⟩ := ih hrow
      exact ⟨before, mem_cons_of_mem _ hbefore, heq⟩
  | case3 => cases hrow
  | case4 head hmarked hdue skipped rows ih =>
    rcases mem_cons.mp hrow with rfl | hrow
    · exact ⟨row, by simp, .inl rfl⟩
    · obtain ⟨before, hbefore, heq⟩ := ih hrow
      exact ⟨before, by simp [hbefore], heq⟩
  | case5 head rows hmarked hdue ih =>
    rcases mem_cons.mp hrow with rfl | hrow
    · exact ⟨head, mem_cons_self, .inr ⟨1, rfl⟩⟩
    · obtain ⟨before, hbefore, heq⟩ := ih hrow
      exact ⟨before, mem_cons_of_mem _ hbefore, heq⟩

def names : List Bytes :=
  rows.map (·.ifname)

/-- The cleanup leaves out rows, and keeps the order of the others. -/
theorem names_cleanup_sublist :
    (names (cleanup snapshot rows)).Sublist (names rows) := by
  fun_induction cleanup snapshot rows with
  | case1 => exact .slnil
  | case2 head rows hmarked ih => exact ih.cons_cons head.ifname
  | case3 head => exact .cons _ .slnil
  | case4 head hmarked hdue skipped rows ih =>
    exact (ih.cons_cons skipped.ifname).cons head.ifname
  | case5 head rows hmarked hdue ih => exact ih.cons_cons head.ifname

theorem length_cleanup_le : (cleanup snapshot rows).length ≤ rows.length := by
  have hlength := (names_cleanup_sublist snapshot rows).length_le
  rwa [names, names, length_map, length_map] at hlength

theorem calc_effect {state : State} (hrange : state.InRange) :
    ∃ accounts read next, state.calc snapshot = some (accounts, next) ∧
      next.InRange ∧
      LinesEffect snapshot snapshot.interfaces state accounts read ∧
      next = { read with
        rows := cleanup snapshot read.rows
        restarted := false } := by
  obtain ⟨accounts, read, hlines, hreadRange, heffect⟩ :=
    lines_effect snapshot snapshot.interfaces hrange
  let next := { read with
    rows := cleanup snapshot read.rows
    restarted := false }
  refine ⟨accounts, read, next, by rw [State.calc, hlines, Option.map_some],
    ⟨?_, ?_, hreadRange.daily, hreadRange.monthly⟩, heffect, rfl⟩
  · intro row hrow
    obtain ⟨before, hbefore, rfl | ⟨sync, rfl⟩⟩ := mem_cleanup hrow
    · exact hreadRange.rows row hbefore
    · exact setSync_inRange sync (hreadRange.rows before hbefore)
  · exact (length_cleanup_le snapshot read.rows).trans hreadRange.count

/-! ## Runs -/

/-- One more call of `calc`, with the record so far. -/
def step (run : List Account × State) (snapshot : Snapshot) :
    Option (List Account × State) :=
  (run.2.calc snapshot).map fun (accounts, state) => (run.1 ++ accounts, state)

/-- The calls of `calc` after a start. -/
def run (snapshots : List Snapshot) : Option (List Account × State) :=
  snapshots.foldlM step ([], State.start)

end Tomato64.Rstats
