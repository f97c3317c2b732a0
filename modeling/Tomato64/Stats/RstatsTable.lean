import Tomato64.Stats.Rstats

/-!
# Rows and names

The name in a row is a copy that is cut to eleven characters, while the search
for a row compares the whole name of the interface.  As long as all names fit,
no name is in the table twice.  The units beside the table stay where they are
when rows move up, so that they belong to the rows only until a row is removed.
-/

namespace Tomato64.Rstats

open List Run Shared Stats Text

section
variable {snapshot : Snapshot} {interface : Interface}
variable {interfaces : List Interface} {state next : State}
variable {accounts : List Account}

/-- The rows before are the first ones after, in their order; a row that was
changed, or is a new one, is marked. -/
structure Grown (before after : List Row) : Prop where
  kept : ∀ {index : ℕ} {row : Row}, before[index]? = some row →
    ∃ later, after[index]? = some later ∧ later.ifname = row.ifname ∧
      (later = row ∨ later.meter.sync = -1)
  added : ∀ {index : ℕ} {row : Row}, before.length ≤ index →
    after[index]? = some row → row.meter.sync = -1

theorem Grown.refl (rows : List Row) : Grown rows rows where
  kept := fun hrow => ⟨_, hrow, rfl, .inl rfl⟩
  added := by
    intro index row hindex hrow
    rw [getElem?_eq_none hindex] at hrow
    cases hrow

theorem Grown.trans {before middle after : List Row}
    (hfirst : Grown before middle) (hsecond : Grown middle after) :
    Grown before after where
  kept := by
    intro index row hrow
    obtain ⟨between, hbetween, hname, hbetweenMark⟩ := hfirst.kept hrow
    obtain ⟨later, hlater, hlaterName, hlaterMark⟩ := hsecond.kept hbetween
    refine ⟨later, hlater, hlaterName.trans hname, ?_⟩
    rcases hlaterMark with rfl | hmarked
    · exact hbetweenMark
    · exact .inr hmarked
  added := by
    intro index row hindex hrow
    by_cases hmiddle : middle.length ≤ index
    · exact hsecond.added hmiddle hrow
    have hbetween := getElem?_eq_getElem (Nat.lt_of_not_le hmiddle)
    obtain ⟨later, hlater, -, hmark⟩ := hsecond.kept hbetween
    obtain rfl : later = row := Option.some.inj (hlater.symm.trans hrow)
    rcases hmark with rfl | hmarked
    · exact hfirst.added hindex hbetween
    · exact hmarked

variable {index : ℕ} {rows : List Row}

/-- Storing a marked meter in a row. -/
theorem grown_set {row : Row} {meter : Meter}
    (hrow : rows[index]? = some row) (hmarked : meter.sync = -1) :
    Grown rows (rows.set index ⟨row.ifname, meter⟩) where
  kept := by
    intro other before hbefore
    by_cases hindex : index = other
    · subst hindex
      obtain rfl : row = before := Option.some.inj (hrow.symm.trans hbefore)
      obtain ⟨hlength, -⟩ := List.getElem?_eq_some_iff.mp hrow
      exact ⟨⟨row.ifname, meter⟩, getElem?_set_self hlength, rfl, .inr hmarked⟩
    · exact ⟨before, (getElem?_set_ne hindex).trans hbefore, rfl, .inl rfl⟩
  added := by
    intro other later hother hlater
    rw [getElem?_eq_none (by rw [length_set]; exact hother)] at hlater
    cases hlater

variable (heffect : LineEffect snapshot interface state accounts next)
include heffect

theorem LineEffect.grown : Grown state.rows next.rows := by
  cases heffect with
  | skipped => exact .refl state.rows
  | @reading index placed row outcome meter fresh next hmonitored hplaced
      hreading hrows hrtd hrestarted =>
      rw [hrows]
      cases hplaced with
      | found hrow => exact grown_set hrow hreading.marked
      | added hnone hcount =>
        rw [set_append_right _ _ (Nat.le_refl _), Nat.sub_self]
        refine ⟨fun {other before} hbefore => ?_, fun {other later} hother hlater => ?_⟩
        · obtain ⟨hlength, -⟩ := List.getElem?_eq_some_iff.mp hbefore
          exact ⟨before, (getElem?_append_left hlength).trans hbefore,
            rfl, .inl rfl⟩
        rw [getElem?_append_right hother] at hlater
        have hlast : later = ⟨_, meter⟩ :=
          mem_singleton.mp (mem_of_getElem? hlater)
        rw [hlast]
        exact hreading.marked

omit heffect in
theorem LinesEffect.grown
    (heffect : LinesEffect snapshot interfaces state accounts next) :
    Grown state.rows next.rows := by
  induction heffect with
  | nil state => exact .refl state.rows
  | cons hline hlines ih => exact hline.grown.trans ih

theorem LineEffect.marked
    (hmonitored : monitored snapshot interface.ifname = true)
    (hfirst : state.rows.findIdx? (·.ifname = interface.ifname) = some index) :
    ∃ row, next.rows[index]? = some row ∧ row.ifname = interface.ifname ∧
      row.meter.sync = -1 := by
  obtain ⟨hlength, hfound, -⟩ := findIdx?_eq_some_iff_getElem.mp hfirst
  cases heffect with
  | skipped hskip =>
    rcases hskip with hnot | ⟨-, hnone⟩
    · rw [hmonitored] at hnot
      cases hnot
    · exact absurd (of_decide_eq_true hfound)
        (hnone _ (getElem_mem hlength))
  | @reading other placed row outcome meter fresh next _ hplaced hreading
      hrows hrtd hrestarted =>
      cases hplaced with
      | found hrow hname hfirstOther =>
        obtain rfl : other = index :=
          Option.some.inj (hfirstOther.symm.trans hfirst)
        rw [hrows]
        exact ⟨⟨row.ifname, meter⟩, getElem?_set_self hlength, hname,
          hreading.marked⟩
      | added hnone =>
        exact absurd (of_decide_eq_true hfound)
          (hnone _ (getElem_mem hlength))

/-! ## Names -/

omit heffect in
theorem names_set {row : Row} (meter : Meter) (hrow : rows[index]? = some row) :
    names (rows.set index ⟨row.ifname, meter⟩) = names rows := by
  obtain ⟨hlength, rfl⟩ := List.getElem?_eq_some_iff.mp hrow
  have hself := @set_getElem_self _ (names rows) index
    (by rw [names, length_map]; exact hlength)
  simpa [names, map_set] using hself

/-- A line keeps the names, or puts that of its interface behind them. -/
theorem LineEffect.names_eq :
    names next.rows = names state.rows ∨
      (monitored snapshot interface.ifname = true ∧
        interface.ifname ∉ names state.rows ∧
        names next.rows =
          names state.rows ++ [interface.ifname.take ifnameLength]) := by
  cases heffect with
  | skipped => exact .inl rfl
  | @reading index placed row outcome meter fresh next hmonitored hplaced
      hreading hrows hrtd hrestarted =>
      rw [hrows, names_set meter hplaced.getElem?_eq]
      cases hplaced with
      | found => exact .inl rfl
      | added hnone =>
        refine .inr ⟨hmonitored, ?_, map_append⟩
        intro hmem
        obtain ⟨row, hrow, hname⟩ := mem_map.mp hmem
        exact hnone row hrow hname

omit heffect

/-- The names of the monitored interfaces fit into a row. -/
def Short (snapshot : Snapshot) : Prop :=
  ∀ interface ∈ snapshot.interfaces,
    monitored snapshot interface.ifname = true →
      interface.ifname.length ≤ ifnameLength

theorem LinesEffect.nodup_names
    (heffect : LinesEffect snapshot interfaces state accounts next)
    (hshort : ∀ interface ∈ interfaces,
      monitored snapshot interface.ifname = true →
        interface.ifname.length ≤ ifnameLength)
    (hnodup : (names state.rows).Nodup) : (names next.rows).Nodup := by
  induction heffect with
  | nil => exact hnodup
  | cons hline hlines ih =>
    rw [forall_mem_cons] at hshort
    refine ih hshort.2 ?_
    rcases hline.names_eq with hsame | ⟨hmonitored, hnew, hadded⟩
    · rw [hsame]
      exact hnodup
    rw [hadded, take_of_length_le (hshort.1 hmonitored)]
    rw [nodup_append]
    refine ⟨hnodup, nodup_singleton _, ?_⟩
    intro name hname other hother heq
    rw [mem_singleton.mp hother] at heq
    exact hnew (heq ▸ hname)

/-- A marked row stays in the table. -/
theorem mem_names_cleanup {row : Row} (hrow : row ∈ rows)
    (hmarked : row.meter.sync = -1) :
    row.ifname ∈ names (cleanup snapshot rows) := by
  fun_induction cleanup snapshot rows with
  | case1 => cases hrow
  | case2 head rows hhead ih =>
    rcases mem_cons.mp hrow with rfl | hrow
    · exact mem_cons_self
    · exact mem_cons_of_mem _ (ih hrow)
  | case3 head hhead hdue =>
    rw [mem_singleton.mp hrow] at hmarked
    exact absurd hmarked hhead
  | case4 head hhead hdue skipped rows ih =>
    rcases mem_cons.mp hrow with rfl | hrow
    · exact absurd hmarked hhead
    · rcases mem_cons.mp hrow with rfl | hrow
      · exact mem_cons_self
      · exact mem_cons_of_mem _ (ih hrow)
  | case5 head rows hhead hdue ih =>
    rcases mem_cons.mp hrow with rfl | hrow
    · exact absurd hmarked hhead
    · exact mem_cons_of_mem _ (ih hrow)

theorem mem_names_iff_findIdx? {name : Bytes} :
    name ∈ names rows ↔
      ∃ index, rows.findIdx? (·.ifname = name) = some index := by
  rw [← Option.isSome_iff_exists, findIdx?_isSome, names, mem_map, any_eq_true]
  simp only [decide_eq_true_eq]

/-- The row that the search finds keeps its place over other lines. -/
theorem Grown.findIdx?_eq {before after : List Row}
    (hgrown : Grown before after) {name : Bytes}
    (hfirst : before.findIdx? (·.ifname = name) = some index) :
    after.findIdx? (·.ifname = name) = some index := by
  obtain ⟨hlength, hfound, hearlier⟩ := findIdx?_eq_some_iff_getElem.mp hfirst
  obtain ⟨later, hlater, hname, -⟩ := hgrown.kept (getElem?_eq_getElem hlength)
  obtain ⟨hlaterLength, rfl⟩ := List.getElem?_eq_some_iff.mp hlater
  refine findIdx?_eq_some_iff_getElem.mpr ⟨hlaterLength, ?_, ?_⟩
  · rw [hname]
    exact hfound
  intro other hother
  obtain ⟨last, hlast, hlastName, -⟩ :=
    hgrown.kept (getElem?_eq_getElem (hother.trans hlength))
  obtain ⟨hlastLength, rfl⟩ := List.getElem?_eq_some_iff.mp hlast
  rw [hlastName]
  exact hearlier other hother

/-- Behind the lines of a snapshot the row of each monitored interface that had
one is marked. -/
theorem LinesEffect.marked
    (heffect : LinesEffect snapshot interfaces state accounts next)
    (hmem : interface ∈ interfaces)
    (hmonitored : monitored snapshot interface.ifname = true)
    (hfirst : state.rows.findIdx? (·.ifname = interface.ifname) = some index) :
    ∃ row, next.rows[index]? = some row ∧ row.ifname = interface.ifname ∧
      row.meter.sync = -1 := by
  induction heffect with
  | nil => cases hmem
  | cons hline hlines ih =>
    rcases mem_cons.mp hmem with rfl | hmem
    · obtain ⟨row, hrow, hname, hmarked⟩ := hline.marked hmonitored hfirst
      obtain ⟨later, hlater, hlaterName, hlaterMark⟩ := hlines.grown.kept hrow
      refine ⟨later, hlater, hlaterName.trans hname, ?_⟩
      rcases hlaterMark with rfl | hlaterMark
      · exact hmarked
      · exact hlaterMark
    · exact ih hmem (hline.grown.findIdx?_eq hfirst)

end

/-! ## One row for an interface -/

/-- A further call finds and keeps the row of an interface, and adds none. -/
def KeepsOneRow (state : State) (snapshot : Snapshot) : Prop :=
  ∃ accounts next, state.calc snapshot = some (accounts, next) ∧
    ∀ interface ∈ snapshot.interfaces,
      monitored snapshot interface.ifname = true →
      interface.ifname.take ifnameLength ∈ names state.rows →
        (names next.rows).count (interface.ifname.take ifnameLength) = 1

theorem calc_nodup {snapshot : Snapshot} (hshort : Short snapshot)
    {state : State} (hrange : state.InRange)
    (hnodup : (names state.rows).Nodup) :
    ∃ accounts next, state.calc snapshot = some (accounts, next) ∧
      next.InRange ∧ (names next.rows).Nodup := by
  obtain ⟨accounts, read, next, hcalc, hnextRange, heffect, rfl⟩ :=
    calc_effect snapshot hrange
  exact ⟨accounts, _, hcalc, hnextRange,
    (heffect.nodup_names hshort hnodup).sublist
      (names_cleanup_sublist snapshot read.rows)⟩

theorem calc_keepsOneRow {snapshot : Snapshot} (hshort : Short snapshot)
    {state : State} (hrange : state.InRange)
    (hnodup : (names state.rows).Nodup) : KeepsOneRow state snapshot := by
  obtain ⟨accounts, read, next, hcalc, hnextRange, heffect, rfl⟩ :=
    calc_effect snapshot hrange
  refine ⟨accounts, _, hcalc, ?_⟩
  intro interface hinterface hmonitored hmem
  rw [take_of_length_le (hshort interface hinterface hmonitored)] at hmem ⊢
  obtain ⟨index, hfirst⟩ := mem_names_iff_findIdx?.mp hmem
  obtain ⟨row, hrow, hname, hmarked⟩ :=
    heffect.marked hinterface hmonitored hfirst
  refine count_eq_one_of_mem ?_ ?_
  · exact (heffect.nodup_names hshort hnodup).sublist
      (names_cleanup_sublist snapshot read.rows)
  · rw [← hname]
    exact mem_names_cleanup (mem_of_getElem? hrow) hmarked

/-- When all names fit, no name is in the table twice after any run, and an
interface that stays keeps its one row. -/
theorem run_names_nodup {snapshots : List Snapshot}
    (hshort : ∀ snapshot ∈ snapshots, Short snapshot) :
    ∃ accounts state, run snapshots = some (accounts, state) ∧
      (names state.rows).Nodup ∧
      ∀ snapshot, Short snapshot → KeepsOneRow state snapshot := by
  have hstart : State.start.InRange ∧ (names State.start.rows).Nodup :=
    ⟨start_inRange, nodup_nil⟩
  have hstep : ∀ (result : List Account × State) (snapshot : Snapshot),
      result.2.InRange ∧ (names result.2.rows).Nodup → Short snapshot →
      ∃ next, step result snapshot = some next ∧
        next.2.InRange ∧ (names next.2.rows).Nodup := by
    intro result snapshot hinvariant hsnapshot
    obtain ⟨accounts, next, hcalc, hnext⟩ :=
      calc_nodup hsnapshot hinvariant.1 hinvariant.2
    exact ⟨(result.1 ++ accounts, next), by rw [step, hcalc]; rfl, hnext⟩
  obtain ⟨⟨accounts, state⟩, hrun, hrange, hnodup⟩ :=
    exists_run_of_guarded step (fun _ => Short) _ hstep hstart
      (guarded_of_forall hshort ([], State.start))
  exact ⟨accounts, state, hrun, hnodup, fun snapshot hsnapshot =>
    calc_keepsOneRow hsnapshot hrange hnodup⟩

/-- A snapshot on a fixed day. -/
def snapshotAt (nvram : Nvram) (uptime : ℤ) (ifnames : List Bytes)
    (counter : Counters)
    (named : ∀ name ∈ ifnames, 1 ≤ name.length ∧ name.length ≤ 15)
    (distinct : ifnames.Nodup) : Snapshot where
  uptime := uptime
  now := 0
  localtime := fun _ => ⟨126, 0, 1⟩
  nvram := nvram
  checkWanup := fun _ => false
  checkWanupTime := fun _ => 0
  interfaces := ifnames.map (⟨·, counter⟩)
  named := by simpa using named
  distinct := by simpa [Function.comp_def] using distinct

variable (uptime : ℤ)

/-- A tunnel with a name of fourteen characters. -/
def tunnelSnapshot : Snapshot :=
  snapshotAt (fun _ => []) uptime [bytes "wireguard-home"] ⟨0, 0⟩ (by decide)
    (by decide)

/-- Interfaces with short names. -/
def lanSnapshot : Snapshot :=
  snapshotAt (fun _ => []) uptime [bytes "br0", bytes "vlan2"] ⟨0, 0⟩
    (by decide) (by decide)

theorem snapshotAt_short {nvram : Nvram} {uptime : ℤ} {ifnames : List Bytes}
    {counter : Counters}
    {named : ∀ name ∈ ifnames, 1 ≤ name.length ∧ name.length ≤ 15}
    {distinct : ifnames.Nodup}
    (hshort : ∀ name ∈ ifnames, name.length ≤ ifnameLength) :
    Short (snapshotAt nvram uptime ifnames counter named distinct) := by
  intro interface hinterface _
  obtain ⟨name, hname, rfl⟩ := mem_map.mp hinterface
  exact hshort name hname

theorem run_names_nodup_lan :
    ∃ accounts state,
      run [lanSnapshot 0, lanSnapshot 60] = some (accounts, state) ∧
        (names state.rows).Nodup ∧
        ∀ snapshot, Short snapshot → KeepsOneRow state snapshot :=
  run_names_nodup (by
    simp only [forall_mem_cons, not_mem_nil, false_imp_iff,
      implies_true, and_true]
    exact ⟨snapshotAt_short (by decide), snapshotAt_short (by decide)⟩)

/-- The tunnel has two rows after the second call, under the cut name. -/
theorem run_names_twice :
    (run [tunnelSnapshot 0, tunnelSnapshot 60]).map
        (fun result => names result.2.rows) =
      some [bytes "wireguard-h", bytes "wireguard-h"] := by
  decide

/-! ## The units beside the rows -/

/-- The memory that no row has used. -/
def Rtd.unset : Rtd :=
  ⟨0, false⟩

/-- The record beside each row was not used, or holds what one of the calls
resolved for the name in this row. -/
def Aligned (snapshots : List Snapshot) (state : State) : Prop :=
  ∀ {index : ℕ} {row : Row}, state.rows[index]? = some row →
    state.rtd index = Rtd.unset ∨
      ∃ snapshot ∈ snapshots,
        state.rtd index = resolve snapshot.nvram row.ifname Rtd.unset

/-- A line finds the row. -/
def matched (snapshot : Snapshot) (rows : List Row) (index : ℕ) : Prop :=
  ∃ interface ∈ snapshot.interfaces,
    monitored snapshot interface.ifname = true ∧
      rows.findIdx? (·.ifname = interface.ifname) = some index

/-- No row is removed: those that could be are found by a line. -/
def KeepsRows (snapshot : Snapshot) (rows : List Row) : Prop :=
  ∀ {index : ℕ} {row : Row}, rows[index]? = some row →
    due snapshot row = true → matched snapshot rows index

theorem getWanUnitWithValue_ne_zero (nvram : Nvram) (suffix value : Bytes) :
    getWanUnitWithValue nvram suffix value ≠ 0 := by
  unfold getWanUnitWithValue
  cases hfind : (wanUnits nvram).find? fun unit =>
      nvram (getWanPrefix unit ++ suffix) = value with
  | none => decide
  | some unit =>
    obtain ⟨index, -, rfl⟩ := mem_map.mp (mem_of_find?_eq_some hfind)
    rw [Option.getD_some]
    omega

theorem wanUnit_resolve_ne_zero (nvram : Nvram) (ifname : Bytes) (rtd : Rtd) :
    (resolve nvram ifname rtd).wanUnit ≠ 0 := by
  unfold resolve
  dsimp only
  split
  · exact getWanUnitWithValue_ne_zero nvram _ ifname
  · exact getWanUnitWithValue_ne_zero nvram _ ifname

/-- The records beside the rows, and the unused ones behind them. -/
structure Units (snapshots : List Snapshot) (state : State) : Prop where
  aligned : Aligned snapshots state
  unused : ∀ index, state.rows.length ≤ index → state.rtd index = Rtd.unset

section
variable {snapshot : Snapshot} {snapshots : List Snapshot}
variable {interface : Interface} {interfaces : List Interface}
variable {state next : State} {accounts : List Account}

/-- A record that belongs to a name still does when it was mapped. -/
theorem mapUnit_aligned (hsnapshot : snapshot ∈ snapshots) {ifname : Bytes}
    {rtd : Rtd} (hrtd : rtd = Rtd.unset ∨
      ∃ snapshot ∈ snapshots,
        rtd = resolve snapshot.nvram ifname Rtd.unset) :
    ∃ other ∈ snapshots,
      mapUnit snapshot ifname rtd = resolve other.nvram ifname Rtd.unset := by
  rcases hrtd with rfl | ⟨other, hother, rfl⟩
  · exact ⟨snapshot, hsnapshot, if_pos rfl⟩
  · exact ⟨other, hother,
      if_neg (wanUnit_resolve_ne_zero other.nvram ifname Rtd.unset)⟩

theorem LineEffect.units
    (heffect : LineEffect snapshot interface state accounts next)
    (hsnapshot : snapshot ∈ snapshots)
    (hshort : monitored snapshot interface.ifname = true →
      interface.ifname.length ≤ ifnameLength)
    (hunits : Units snapshots state) : Units snapshots next := by
  cases heffect with
  | skipped => exact hunits
  | @reading index placed row outcome meter fresh next hmonitored hplaced
      hreading hrows hrtd hrestarted =>
      -- The record of the row, which may be a new one, belongs to its name.
      have hbelongs : row.ifname = interface.ifname ∧
          (state.rtd index = Rtd.unset ∨
            ∃ snapshot ∈ snapshots, state.rtd index =
              resolve snapshot.nvram interface.ifname Rtd.unset) := by
        cases hplaced with
        | found hrow hname => exact ⟨hname, hname ▸ hunits.aligned hrow⟩
        | added hnone hcount =>
          exact ⟨take_of_length_le (hshort hmonitored),
            .inl (hunits.unused _ (Nat.le_refl _))⟩
      have hplacedLength : state.rows.length ≤ placed.length := by
        cases hplaced with
        | found => exact Nat.le_refl _
        | added =>
          rw [length_append]
          omega
      obtain ⟨hname, hstate⟩ := hbelongs
      obtain ⟨hindex, -⟩ := List.getElem?_eq_some_iff.mp hplaced.getElem?_eq
      refine ⟨?_, ?_⟩
      · intro other later hlater
        rw [hrows] at hlater
        rw [hrtd]
        by_cases hother : index = other
        · subst hother
          rw [getElem?_set_self hindex] at hlater
          obtain rfl := Option.some.inj hlater
          rw [Function.update_self, hname]
          exact .inr (mapUnit_aligned hsnapshot hstate)
        rw [getElem?_set_ne hother] at hlater
        rw [Function.update_of_ne (Ne.symm hother)]
        cases hplaced with
        | found => exact hunits.aligned hlater
        | added =>
          have hlength : other < state.rows.length := by
            obtain ⟨hless, -⟩ := List.getElem?_eq_some_iff.mp hlater
            rw [length_append, length_singleton] at hless
            omega
          rw [getElem?_append_left hlength] at hlater
          exact hunits.aligned hlater
      · intro other hother
        rw [hrows, length_set] at hother
        rw [hrtd, Function.update_of_ne (by omega)]
        exact hunits.unused other (hplacedLength.trans hother)

theorem LinesEffect.units
    (heffect : LinesEffect snapshot interfaces state accounts next)
    (hsnapshot : snapshot ∈ snapshots) (hshort : ∀ interface ∈ interfaces,
      monitored snapshot interface.ifname = true →
        interface.ifname.length ≤ ifnameLength)
    (hunits : Units snapshots state) : Units snapshots next := by
  induction heffect with
  | nil => exact hunits
  | cons hline hlines ih =>
    rw [forall_mem_cons] at hshort
    exact ih hshort.2 (hline.units hsnapshot hshort.1 hunits)

/-- Without a removal the cleanup keeps all names where they are. -/
theorem names_cleanup_of_kept {rows : List Row}
    (hkept : ∀ row ∈ rows, row.meter.sync = -1 ∨ ¬ due snapshot row = true) :
    names (cleanup snapshot rows) = names rows := by
  fun_induction cleanup snapshot rows with
  | case1 => rfl
  | case2 head rows hmarked ih =>
    rw [forall_mem_cons] at hkept
    exact congrArg (head.ifname :: ·) (ih hkept.2)
  | case3 head hmarked hdue =>
    exact ((hkept head mem_cons_self).elim hmarked (absurd hdue)).elim
  | case4 head hmarked hdue =>
    exact ((hkept head mem_cons_self).elim hmarked (absurd hdue)).elim
  | case5 head rows hmarked hdue ih =>
    rw [forall_mem_cons] at hkept
    exact congrArg (head.ifname :: ·) (ih hkept.2)

/-- A row that a line finds is marked, and another one is as it was. -/
theorem LinesEffect.kept {index : ℕ} {row : Row}
    (heffect : LinesEffect snapshot snapshot.interfaces state accounts next)
    (hindex : next.rows[index]? = some row)
    (hmatched : ∀ {before}, state.rows[index]? = some before →
      due snapshot before = true → matched snapshot state.rows index) :
    row.meter.sync = -1 ∨ ¬ due snapshot row = true := by
  by_cases hlength : state.rows.length ≤ index
  · exact .inl (heffect.grown.added hlength hindex)
  have hbefore := getElem?_eq_getElem (Nat.lt_of_not_le hlength)
  obtain ⟨later, hlater, -, hsame | hmarked⟩ := heffect.grown.kept hbefore
  swap
  · obtain rfl : later = row := Option.some.inj (hlater.symm.trans hindex)
    exact .inl hmarked
  obtain rfl : later = row := Option.some.inj (hlater.symm.trans hindex)
  by_cases hdue : due snapshot later = true
  · obtain ⟨interface, hmem, hmonitored, hfirst⟩ :=
      hmatched hbefore (hsame ▸ hdue)
    obtain ⟨found, hfound, -, hmarked⟩ := heffect.marked hmem hmonitored hfirst
    obtain rfl : found = later := Option.some.inj (hfound.symm.trans hindex)
    exact .inl hmarked
  · exact .inr hdue

theorem Units.of_names (hunits : Units snapshots state)
    (hnames : names next.rows = names state.rows)
    (hrtd : next.rtd = state.rtd) : Units snapshots next := by
  have hlength : next.rows.length = state.rows.length := by
    have hlengths := congrArg List.length hnames
    rwa [names, names, length_map, length_map] at hlengths
  refine ⟨?_, ?_⟩
  · intro index row hrow
    have hname := congrArg (·[index]?) hnames
    simp only [names, getElem?_map, hrow, Option.map_some] at hname
    obtain ⟨before, hbefore, hsame⟩ := Option.map_eq_some_iff.mp hname.symm
    rw [hrtd, ← hsame]
    exact hunits.aligned hbefore
  · intro index hindex
    rw [hrtd]
    exact hunits.unused index (hlength ▸ hindex)

theorem calc_units (hrange : state.InRange) (hsnapshot : snapshot ∈ snapshots)
    (hshort : Short snapshot) (hkeeps : KeepsRows snapshot state.rows)
    (hunits : Units snapshots state) :
    ∃ accounts next, state.calc snapshot = some (accounts, next) ∧
      next.InRange ∧ Units snapshots next := by
  obtain ⟨accounts, read, next, hcalc, hnextRange, heffect, rfl⟩ :=
    calc_effect snapshot hrange
  refine ⟨accounts, _, hcalc, hnextRange,
    (heffect.units hsnapshot hshort hunits).of_names ?_ rfl⟩
  refine names_cleanup_of_kept fun row hrow => ?_
  obtain ⟨index, hindex⟩ := mem_iff_getElem?.mp hrow
  exact heffect.kept hindex hkeeps

end

/-- When all names fit and no row is removed, the records beside the rows
belong to them after any run. -/
theorem run_aligned {snapshots : List Snapshot}
    (hguarded : Guarded step (fun result snapshot =>
      Short snapshot ∧ KeepsRows snapshot result.2.rows)
      ([], State.start) snapshots) :
    ∃ accounts state, run snapshots = some (accounts, state) ∧
      Aligned snapshots state := by
  have hstart : State.start.InRange ∧ Units snapshots State.start := by
    refine ⟨start_inRange, ?_, fun _ _ => rfl⟩
    intro index row hrow
    exact absurd hrow (by simp [State.start])
  have hstep : ∀ (result : List Account × State) (snapshot : Snapshot),
      result.2.InRange ∧ Units snapshots result.2 →
      (Short snapshot ∧ KeepsRows snapshot result.2.rows) ∧
        snapshot ∈ snapshots →
      ∃ next, step result snapshot = some next ∧
        next.2.InRange ∧ Units snapshots next.2 := by
    intro result snapshot hinvariant hsnapshot
    obtain ⟨accounts, next, hcalc, hnext⟩ :=
      calc_units hinvariant.1 hsnapshot.2 hsnapshot.1.1 hsnapshot.1.2
        hinvariant.2
    exact ⟨(result.1 ++ accounts, next), by rw [step, hcalc]; rfl, hnext⟩
  have hmem : Guarded step (fun _ snapshot => snapshot ∈ snapshots)
      ([], State.start) snapshots :=
    guarded_of_forall (fun _ hsnapshot => hsnapshot) _
  obtain ⟨⟨accounts, state⟩, hrun, -, hunits⟩ :=
    exists_run_of_guarded step _ _ hstep hstart (hguarded.and hmem)
  exact ⟨accounts, state, hrun, hunits.aligned⟩

/-- A WAN on `vlan2`. -/
def wanNvram : Nvram := fun key =>
  if key = bytes "wan_iface" then bytes "vlan2"
  else if key = bytes "wan_proto" then bytes "dhcp"
  else if key = bytes "ntp_ready" then bytes "1"
  else []

def wanSnapshot (counter : Counters) : Snapshot :=
  snapshotAt wanNvram uptime [bytes "vlan2"] counter (by decide) (by decide)

/-- The same with a modem in front of it. -/
def modemSnapshot (counter : Counters) : Snapshot :=
  snapshotAt wanNvram uptime [bytes "usb0", bytes "vlan2"] counter (by decide)
    (by decide)

/-- A minute after the modem was there no row is old. -/
theorem not_due_modem {next : List Account × State}
    (hnext : step ([], State.start) (modemSnapshot 0 ⟨100, 10⟩) = some next)
    {index : ℕ} {row : Row} (hrow : next.2.rows[index]? = some row) :
    due (wanSnapshot 60 ⟨300, 20⟩) row ≠ true := by
  have hyoung : (step ([], State.start) (modemSnapshot 0 ⟨100, 10⟩)).all
      (fun result => result.2.rows.all
        (!due (wanSnapshot 60 ⟨300, 20⟩) ·)) = true := by
    decide +kernel
  rw [hnext, Option.all_some, all_eq_true] at hyoung
  have hnot := hyoung row (mem_of_getElem? hrow)
  rwa [Bool.not_eq_true', ← Bool.not_eq_true] at hnot

theorem run_aligned_modem :
    ∃ accounts state,
      run [modemSnapshot 0 ⟨100, 10⟩, wanSnapshot 60 ⟨300, 20⟩] =
          some (accounts, state) ∧
        Aligned [modemSnapshot 0 ⟨100, 10⟩, wanSnapshot 60 ⟨300, 20⟩]
          state := by
  refine run_aligned ⟨⟨snapshotAt_short (by decide), ?_⟩, fun next hnext =>
    ⟨⟨snapshotAt_short (by decide), ?_⟩, fun _ _ => trivial⟩⟩
  · intro index row hrow
    exact absurd hrow (by simp [State.start])
  · intro index row hrow hdue
    exact (not_due_modem hnext hrow hdue).elim

/-- When the modem is gone for eleven minutes its row goes, and the record of
`vlan2` is that of the modem. -/
theorem run_misaligned :
    (run (modemSnapshot 0 ⟨0, 0⟩ ::
        (range 11).map fun (minute : ℕ) =>
          wanSnapshot (60 * (minute + 1)) ⟨0, 0⟩)).map
      (fun result => (names result.2.rows, result.2.rtd 0)) =
    some ([bytes "vlan2"], ⟨-1, false⟩) ∧
    resolve wanNvram (bytes "vlan2") Rtd.unset = ⟨1, false⟩ := by
  decide +kernel

end Tomato64.Rstats
