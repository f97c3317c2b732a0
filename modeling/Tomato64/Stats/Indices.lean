import Tomato64.Stats.CstatsTree
import Tomato64.Stats.RstatsTable

/-!
# Positions from files

The positions of the latest entries are saved with the entries, and come back
unchecked when a file is loaded, which may be one that was uploaded.  From
positions that lie in their arrays both daemons never leave them again.
-/

namespace Tomato64.Rstats

open List Run Stats Text

/-- A row of a loaded table: its time is not in the future. -/
def clamp (uptime : ℤ) (row : Row) : Row :=
  if uptime < row.meter.utime then
    { row with meter := { row.meter with utime := uptime, sync := 1 } }
  else row

inductive Event where
  | loadHistory (daily : Ring 62) (monthly : Ring 121)
  | loadSpeed (uptime : ℤ) (rows : List Row)
  | calculate (snapshot : Snapshot)
  | saveSpeedjs
  | saveHistjs

def perform (state : State) : Event → Option State
  | .loadHistory daily monthly =>
    some { state with daily := daily, monthly := monthly }
  | .loadSpeed uptime rows =>
    some { state with rows := (rows.take maxSpeedIf).map (clamp uptime) }
  | .calculate snapshot => (state.calc snapshot).map (·.2)
  | .saveSpeedjs => do
      let _ ← state.rows.mapM fun row =>
        sampleAccesses maxNspeed row.meter.tail
      return state
  | .saveHistjs => do
      let _ ← saveDatajs state.daily
      let _ ← saveDatajs state.monthly
      return state

def runEvents (events : List Event) : Option State :=
  events.foldlM perform State.start

/-- The positions in a loaded file lie in the arrays. -/
def Event.InRange : Event → Prop
  | .loadHistory daily monthly => daily.InRange ∧ monthly.InRange
  | .loadSpeed _ rows => ∀ row ∈ rows, row.meter.InRange
  | _ => True

theorem clamp_inRange (uptime : ℤ) {row : Row} (hrange : row.meter.InRange) :
    (clamp uptime row).meter.InRange := by
  unfold clamp
  split
  · exact hrange
  · exact hrange

theorem mapM_eq_some {α β : Type} {f : α → Option β} {values : List α}
    (hvalues : ∀ value ∈ values, ∃ result, f value = some result) :
    ∃ results, values.mapM f = some results := by
  induction values with
  | nil => exact ⟨[], rfl⟩
  | cons value values ih =>
    rw [forall_mem_cons] at hvalues
    obtain ⟨result, hresult⟩ := hvalues.1
    obtain ⟨results, hresults⟩ := ih hvalues.2
    refine ⟨result :: results, ?_⟩
    rw [mapM_cons, hresult, hresults]
    rfl

theorem perform_inRange {state : State} {event : Event}
    (hrange : state.InRange) (hevent : event.InRange) :
    ∃ next, perform state event = some next ∧ next.InRange := by
  cases event with
  | loadHistory daily monthly =>
    exact ⟨_, rfl, hrange.rows, hrange.count, hevent.1, hevent.2⟩
  | loadSpeed uptime rows =>
    refine ⟨_, rfl, ?_, ?_, hrange.daily, hrange.monthly⟩
    · intro row hrow
      obtain ⟨loaded, hloaded, rfl⟩ := mem_map.mp hrow
      exact clamp_inRange uptime (hevent loaded (mem_of_mem_take hloaded))
    · rw [length_map]
      exact length_take_le _ _
  | calculate snapshot =>
    obtain ⟨accounts, read, next, hcalc, hnext, -⟩ :=
      calc_effect snapshot hrange
    exact ⟨next, by rw [perform, hcalc]; rfl, hnext⟩
  | saveSpeedjs =>
    obtain ⟨results, hresults⟩ : ∃ results, (state.rows.mapM fun row =>
        sampleAccesses maxNspeed row.meter.tail) = some results :=
      mapM_eq_some fun row hrow =>
        ⟨(), sampleAccesses_inRange maxNspeed (hrange.rows row hrow).1
          (hrange.rows row hrow).2⟩
    exact ⟨state, by rw [perform, hresults]; rfl, hrange⟩
  | saveHistjs =>
    obtain ⟨daily, hdaily⟩ := saveDatajs_inRange hrange.daily
    obtain ⟨monthly, hmonthly⟩ := saveDatajs_inRange hrange.monthly
    exact ⟨state, by rw [perform, hdaily, hmonthly]; rfl, hrange⟩

theorem runEvents_inRange {events : List Event}
    (hevents : ∀ event ∈ events, event.InRange) :
    ∃ state, runEvents events = some state ∧ state.InRange :=
  exists_run_of_guarded perform (fun _ event => event.InRange) State.InRange
    (fun _ _ hrange hevent => perform_inRange hrange hevent) start_inRange
    (guarded_of_forall hevents State.start)

end Tomato64.Rstats

namespace Tomato64.Cstats

open AvlTree Run Stats Text

/-! ## Everything that `cstats` does -/

/-- The positions in a loaded record lie in the arrays. -/
def Event.InRange : Event → Prop
  | .record _ _ loaded => loaded.InRange
  | _ => True

theorem nodePrintSpeedjs_inRange {node : Node} (hrange : node.InRange) :
    ∃ result, nodePrintSpeedjs node = some result := by
  unfold nodePrintSpeedjs
  split
  · exact ⟨(), rfl⟩
  · exact ⟨(), sampleAccesses_inRange maxNspeed hrange.meter.1 hrange.meter.2⟩

theorem nodePrintDatajs_inRange {node : Node} (hrange : node.InRange) :
    ∃ result, nodePrintDatajs node = some result := by
  obtain ⟨daily, hdaily⟩ := saveDatajs_inRange hrange.daily
  obtain ⟨monthly, hmonthly⟩ := saveDatajs_inRange hrange.monthly
  exact ⟨(daily, monthly), by rw [nodePrintDatajs, hdaily, hmonthly]; rfl⟩

theorem step_sound {state : State} {event : Event} (hsound : Sound state)
    (hevent : event.InRange) : OkOr Sound .absentNode (step state event) := by
  cases event with
  | record exclude uptime record =>
    rw [step, loadRecord]
    split
    next =>
      refine OkOr.bind (.inl (removeFound_sound record.ipaddr hsound)) ?_
      intro removed hremoved
      refine OkOr.bind (insertNew_sound record.ipaddr hremoved) ?_
      intro inserted hinserted
      exact .inl ⟨_, rfl, updateFound_sound record.ipaddr
        (fun node _ => fill_inRange uptime hevent node) hinserted⟩
    next => exact .inl ⟨state, rfl, hsound⟩
  | line snapshot line => exact countLine_sound snapshot line hsound
  | finish exclude => exact .inl (finish_sound exclude hsound)
  | saveSpeedjs =>
    obtain ⟨results, hresults⟩ := Rstats.mapM_eq_some
      fun node hnode => nodePrintSpeedjs_inRange (hsound.inRange node hnode)
    exact .inl ⟨state, by rw [step, hresults]; rfl, hsound⟩
  | saveHistjs =>
    obtain ⟨results, hresults⟩ := Rstats.mapM_eq_some
      fun node hnode => nodePrintDatajs_inRange (hsound.inRange node hnode)
    exact .inl ⟨state, by rw [step, hresults]; rfl, hsound⟩

theorem run_sound {events : List Event}
    (hevents : ∀ event ∈ events, event.InRange) :
    OkOr Sound .absentNode (run events) :=
  okOr_foldlM step (fun _ event => event.InRange) Sound .absentNode
    (fun _ _ hsound hevent => step_sound hsound hevent) start_sound
    (guarded_of_forall hevents State.start)

end Tomato64.Cstats

namespace Tomato64.Stats

open List Run Text

/-! ## Both daemons -/

/-- When the positions in all loaded files lie in the arrays, no run of either
daemon leaves them. -/
theorem run_inRange {events : List Rstats.Event} {others : List Cstats.Event}
    (hevents : ∀ event ∈ events, event.InRange)
    (hothers : ∀ event ∈ others, event.InRange) :
    (∃ state, Rstats.runEvents events = some state ∧ state.InRange) ∧
      OkOr Cstats.Sound .absentNode (Cstats.run others) :=
  ⟨Rstats.runEvents_inRange hevents, Cstats.run_sound hothers⟩

/-- A history at its last day and month. -/
def lastDay : Rstats.Event :=
  .loadHistory { Ring.empty 62 with tail := 61 }
    { Ring.empty 121 with tail := 120 }

/-- The speeds of `vlan2`, before the first sample. -/
def beforeFirst : Rstats.Event :=
  .loadSpeed 0 [⟨bytes "vlan2", { Meter.new 0 with tail := -1 }⟩]

/-- A host at its last day, month and sample. -/
def lastRecord : Cstats.Record :=
  ⟨Cstats.hostIp 0, Cstats.currentId, { Ring.empty 62 with tail := 61 },
    { Ring.empty 25 with tail := 24 }, 0, fun _ => ⟨0, 0⟩, ⟨0, 0⟩, 1439⟩

theorem run_inRange_last :
    (∃ state, Rstats.runEvents [lastDay, beforeFirst,
        .calculate (Rstats.wanSnapshot 60 ⟨100, 10⟩), .saveSpeedjs,
        .saveHistjs] = some state ∧ state.InRange) ∧
      OkOr Cstats.Sound .absentNode (Cstats.run [.record [] 0 lastRecord,
        .line Cstats.openSnapshot (Cstats.hostLine 0), .saveHistjs]) := by
  refine run_inRange ?_ ?_
  · simp only [forall_mem_cons, not_mem_nil, false_imp_iff, implies_true,
      and_true]
    refine ⟨⟨⟨by decide, by decide⟩, ⟨by decide, by decide⟩⟩, ?_, trivial,
      trivial, trivial⟩
    rintro row (_ | ⟨_, ⟨⟩⟩)
    exact ⟨by decide, by decide⟩
  · simp only [forall_mem_cons, not_mem_nil, false_imp_iff, implies_true,
      and_true]
    exact ⟨⟨⟨by decide, by decide⟩, ⟨by decide, by decide⟩, by decide⟩,
      trivial, trivial⟩

/-- A history whose latest day is behind the last one, and a minute on a WAN. -/
theorem run_outOfRange :
    Rstats.runEvents [
      .loadHistory { Ring.empty 62 with tail := 62 } (Ring.empty 121),
      .calculate (Rstats.wanSnapshot 60 ⟨0, 0⟩)] = none :=
  Option.isNone_iff_eq_none.mp (by decide)

end Tomato64.Stats
