import Mathlib.Data.Fintype.Pi
import Mathlib.Data.List.FinRange
import Mathlib.Logic.Relation
import Tomato64.Core.Scan

/-!
# The grid of the VLAN page

`advanced-vlan.asp` keeps one row for each VLAN.  A row is added by the editor
below the grid; a click on a row hides it behind an editor of its own, whose
buttons replace, delete or show it again.  Both editors ask `verifyFields`,
which counts over the rows that are shown.
-/

namespace Tomato64.VlanGrid

open List Scan Text

/-- The constants of the page and the port numbers of the router's model. -/
structure Page where
  maxVlanId : ℕ
  maxPortId : ℕ
  maxBridgeId : ℕ
  maxwanNum : ℕ
  portColName : Fin (maxPortId + 1) → ℕ
  portColName_injective : Function.Injective portColName

/-- The values 0, 1 and 2 of a port's column. -/
inductive PortState where
  | off
  | on
  | tag
deriving DecidableEq

/-- The options of the bridge column. -/
inductive Bridge (page : Page) where
  | none
  | wan (unit : Fin page.maxwanNum)
  | lan (unit : Fin (page.maxBridgeId + 1))
deriving DecidableEq

/-- The data of a row, and also the controls of an editor.  `map` is the text
that overrides the VLAN's number as its VID. -/
structure Row (page : Page) where
  vid : Fin (page.maxVlanId + 1)
  map : Bytes
  port : Fin (page.maxPortId + 1) → PortState
  native : Bool
  bridge : Bridge page
deriving DecidableEq

/-- The grid, with a row behind the open editor or with none. -/
inductive Grid (page : Page) where
  | idle (rows : List (Row page))
  | editing (above : List (Row page)) (source : Row page)
      (below : List (Row page))

variable {page : Page}

def Grid.rows : Grid page → List (Row page)
  | .idle rows => rows
  | .editing above source below => above ++ source :: below

/-- The rows that are shown. -/
def Grid.getAllData : Grid page → List (Row page)
  | .idle rows => rows
  | .editing above _ below => above ++ below

/-! ## Checks of an editor -/

inductive Field (page : Page) where
  | vid
  | map
  | port (index : Fin (page.maxPortId + 1))
  | native
  | bridge
deriving DecidableEq

/-- The controls after the checks, and the errors set on them. -/
structure Verdict (page : Page) where
  form : Row page
  errors : List (Field page × Bytes)

/-- `v.match(/^ *[-\+]?\d+ *$/)` with the bounds, and `v * 1` as text. -/
def vRange (min max : ℤ) (value : Bytes) : Option Bytes :=
  let signed := takeSign (value.dropWhile (· = 32))
  let digits := signed.2.takeWhile isDigit
  let number := Scan.signed signed.1 (valueOf 10 digits)
  if digits ≠ [] ∧ (signed.2.dropWhile isDigit).all (· = 32) ∧
      min ≤ number ∧ number ≤ max then
    some (decimal number.toNat)
  else none

variable (data : List (Row page))

def countElem (holds : Row page → Bool) : ℕ :=
  data.countP holds

def countDefaultVID : ℕ :=
  countElem data (·.native)

def countVID (vid : Fin (page.maxVlanId + 1)) : ℕ :=
  countElem data (·.vid = vid)

def countWan (wan : Fin page.maxwanNum) : ℕ :=
  countElem data (·.bridge = .wan wan)

def countLan (lan : Fin (page.maxBridgeId + 1)) : ℕ :=
  countElem data (·.bridge = .lan lan)

variable (form : Row page)

def mapErrors : List (Field page × Bytes) :=
  if vRange 0 4094 form.map = none then
    [(.map, bytes "Invalid number. Valid range: 0-4094")]
  else []

/-- One untagged VLAN for each port.  `old` is the row behind the editor. -/
def checkNative (old : Option (Row page))
    (form : Row page) (index : Fin (page.maxPortId + 1)) :
    List (Field page × Bytes) :=
  let oldPort := (old.map (·.port index)).getD .off
  if form.port index = .on ∧
      (0 : ℤ) < countElem data (·.port index = .on) -
        (if oldPort = .on then 1 else 0) then
    [(.port index,
      bytes "Only one untagged VLAN per port is allowed (Native VLAN)")]
  else []

def nativeErrors :
    List (Field page × Bytes) :=
  if 0 < countDefaultVID data ∧ form.native = true then
    [(.native, bytes "Only one VID can be selected as the default VID")]
  else []

def vidErrors :
    List (Field page × Bytes) :=
  if 0 < countVID data form.vid then
    [(.vid, bytes "Cannot add more than one entry with VID " ++
      decimal form.vid)]
  else []

def wanError
    (wan : Fin page.maxwanNum) : Option Bytes :=
  if 0 < countWan data wan ∧ form.bridge = .wan wan then
    some (bytes "Only one VID can be used as WAN" ++ decimal wan ++
      bytes " at any time")
  else none

def lanError
    (lan : Fin (page.maxBridgeId + 1)) : Option Bytes :=
  if 0 < countLan data lan ∧ form.bridge = .lan lan then
    some (bytes "One and only one VID can be used for LAN" ++ decimal lan ++
      bytes " (br" ++ decimal lan ++ bytes ") at any time")
  else none

def bridgeError : Option Bytes :=
  ((finRange page.maxwanNum).findSome? (wanError data form)).or
    ((finRange (page.maxBridgeId + 1)).findSome? (lanError data form))

/-- The VID as a number, and no default mark while another row has it.  Trunks
are allowed on every router, so `enforcePortState` changes no port. -/
def settleForm : Row page :=
  { form with
    map := (vRange 0 4094 form.map).getD form.map
    native := if 0 < countDefaultVID data then false else form.native }

def verifyFields (old : Option (Row page))
    (form : Row page) : Verdict page :=
  let settled := settleForm data form
  ⟨settled,
    mapErrors form ++
      (finRange (page.maxPortId + 1)).flatMap
        (checkNative data old form) ++
      nativeErrors data settled ++ vidErrors data form ++
      (bridgeError data form).toList.map (Field.bridge, ·)⟩

/-! ## Actions -/

inductive Action (page : Page) where
  | edit (index : ℕ)
  | cancel
  | delete
  | ok (form : Row page)
  | add (form : Row page)

/-- A click on a row opens its editor. -/
def edit (index : ℕ) : Grid page → Grid page
  | .idle rows =>
    match rows.drop index with
    | [] => .idle rows
    | source :: below => .editing (rows.take index) source below
  | grid => grid

def onCancel : Grid page → Grid page
  | .editing above source below => .idle (above ++ source :: below)
  | grid => grid

def onDelete : Grid page → Grid page
  | .editing above _ below => .idle (above ++ below)
  | grid => grid

def onOK : Grid page → Grid page
  | .editing above source below =>
    let verdict := verifyFields (above ++ below) (some source) form
    if verdict.errors = [] then .idle (above ++ verdict.form :: below)
    else .editing above source below
  | grid => grid

/-- The editor below the grid is disabled while a row is edited. -/
def onAdd : Grid page → Grid page
  | .idle rows =>
    let verdict := verifyFields rows none form
    if verdict.errors = [] then .idle (rows ++ [verdict.form])
    else .idle rows
  | grid => grid

def perform : Action page → Grid page → Grid page
  | .edit index => edit index
  | .cancel => onCancel
  | .delete => onDelete
  | .ok form => onOK form
  | .add form => onAdd form

/-- `sort` and `resort` reorder the rows of a grid that is not edited. -/
inductive Reordered : Grid page → Grid page → Prop where
  | same (grid : Grid page) : Reordered grid grid
  | sort {rows sorted : List (Row page)} (hperm : rows.Perm sorted) :
      Reordered (.idle rows) (.idle sorted)

/-- One action of the user, followed by a sort. -/
def Step (action : Action page) (grid next : Grid page) : Prop :=
  Reordered (perform action grid) next

/-- Some sequence of actions, each `allowed` where it is taken. -/
def Reaches (allowed : Grid page → Action page → Prop) :
    Grid page → Grid page → Prop :=
  Relation.ReflTransGen fun grid next =>
    ∃ action, allowed grid action ∧ Step action grid next

/-! ## The invariant -/

/-- What two rows of a grid may not share: the row behind the open editor
counts as well. -/
structure Invariant (grid : Grid page) : Prop where
  vid : ∀ vid, grid.rows.countP (·.vid = vid) ≤ 1
  untagged : ∀ index, grid.rows.countP (·.port index = .on) ≤ 1
  wan : ∀ unit, grid.rows.countP (·.bridge = .wan unit) ≤ 1
  lan : ∀ unit, grid.rows.countP (·.bridge = .lan unit) ≤ 1
  native : grid.rows.countP (·.native) ≤ 1

/-- The things that the invariant gives to one row at most. -/
inductive Resource (page : Page) where
  | vid (vid : Fin (page.maxVlanId + 1))
  | untagged (index : Fin (page.maxPortId + 1))
  | wan (unit : Fin page.maxwanNum)
  | lan (unit : Fin (page.maxBridgeId + 1))
  | native

def uses : Resource page → Row page → Bool
  | .vid vid => (·.vid = vid)
  | .untagged index => (·.port index = .on)
  | .wan unit => (·.bridge = .wan unit)
  | .lan unit => (·.bridge = .lan unit)
  | .native => (·.native)

variable {grid : Grid page}

theorem invariant_iff :
    Invariant grid ↔ ∀ resource, grid.rows.countP (uses resource) ≤ 1 := by
  constructor
  · intro hinvariant resource
    cases resource with
    | vid vid => exact hinvariant.vid vid
    | untagged index => exact hinvariant.untagged index
    | wan unit => exact hinvariant.wan unit
    | lan unit => exact hinvariant.lan unit
    | native => exact hinvariant.native
  · intro hcount
    exact ⟨fun vid => hcount (.vid vid), fun index => hcount (.untagged index),
      fun unit => hcount (.wan unit), fun unit => hcount (.lan unit),
      hcount .native⟩

/-! ## What an accepted row takes -/

section
variable {data : List (Row page)} {old : Option (Row page)} {form : Row page}

/-- The uses of the row behind the editor, if there is one. -/
def oldUses (resource : Resource page) (old : Option (Row page)) : ℕ :=
  old.toList.countP (uses resource)

theorem checkNative_eq_nil {index : Fin (page.maxPortId + 1)}
    (hcheck : checkNative data old form index = [])
    (hon : form.port index = .on) :
    data.countP (·.port index = .on) ≤ oldUses (.untagged index) old := by
  unfold checkNative at hcheck
  simp only [hon, true_and, ite_eq_right_iff, reduceCtorEq, imp_false,
    not_lt, countElem] at hcheck
  cases old with
  | none =>
    simp only [Option.map_none, Option.getD_none, reduceCtorEq, if_false]
      at hcheck
    omega
  | some row =>
    simp only [Option.map_some, Option.getD_some] at hcheck
    by_cases hold : row.port index = .on
    · simp [oldUses, uses, hold] at hcheck ⊢
      omega
    · rw [if_neg hold] at hcheck
      omega

theorem bridgeError_eq_none_wan {unit : Fin page.maxwanNum}
    (hnone : bridgeError data form = none) (hbridge : form.bridge = .wan unit) :
    countWan data unit = 0 := by
  rw [bridgeError, Option.or_eq_none_iff, findSome?_eq_none_iff] at hnone
  have hwan := hnone.1 unit (mem_finRange unit)
  simpa [wanError, hbridge] using hwan

theorem bridgeError_eq_none_lan {unit : Fin (page.maxBridgeId + 1)}
    (hnone : bridgeError data form = none) (hbridge : form.bridge = .lan unit) :
    countLan data unit = 0 := by
  rw [bridgeError, Option.or_eq_none_iff, findSome?_eq_none_iff,
    findSome?_eq_none_iff] at hnone
  have hlan := hnone.2 unit (mem_finRange unit)
  simpa [lanError, hbridge] using hlan

/-- What an accepted form takes is used by no row that is shown, except that an
untagged port of the row behind the editor allows one. -/
theorem verifyFields_uses_le (resource : Resource page)
    (haccept : (verifyFields data old form).errors = [])
    (huses : uses resource (verifyFields data old form).form = true) :
    data.countP (uses resource) ≤ oldUses resource old := by
  simp only [verifyFields, append_eq_nil_iff, flatMap_eq_nil_iff,
    map_eq_nil_iff, Option.toList_eq_nil_iff] at haccept
  obtain ⟨⟨⟨⟨-, hports⟩, -⟩, hvid⟩, hbridge⟩ := haccept
  cases resource with
  | vid vid =>
    have heq : form.vid = vid := of_decide_eq_true huses
    subst heq
    have hzero : countVID data form.vid = 0 := by
      simpa [vidErrors] using hvid
    exact hzero.le.trans (Nat.zero_le _)
  | untagged index =>
    exact checkNative_eq_nil (hports index (mem_finRange index))
      (of_decide_eq_true huses)
  | wan unit =>
    exact (bridgeError_eq_none_wan hbridge (of_decide_eq_true huses)).le.trans
      (Nat.zero_le _)
  | lan unit =>
    exact (bridgeError_eq_none_lan hbridge (of_decide_eq_true huses)).le.trans
      (Nat.zero_le _)
  | native =>
    have hzero : countDefaultVID data = 0 := by
      by_contra hpos
      have hfalse : (settleForm data form).native = false := by
        simp [settleForm, Nat.pos_of_ne_zero hpos]
      simp [uses, verifyFields, hfalse] at huses
    exact hzero.le.trans (Nat.zero_le _)

end

/-- Putting an accepted form in the place of the old row, or behind the rows
when there is none, leaves each resource with one row at most. -/
theorem countP_verified_le (above below : List (Row page))
    (old : Option (Row page)) {form : Row page} (resource : Resource page)
    (hold : (above ++ old.toList ++ below).countP (uses resource) ≤ 1)
    (haccept : (verifyFields (above ++ below) old form).errors = []) :
    (above ++ (verifyFields (above ++ below) old form).form :: below).countP
      (uses resource) ≤ 1 := by
  have hfree := verifyFields_uses_le resource haccept
  simp only [countP_append, countP_cons, oldUses] at hold hfree ⊢
  by_cases huses :
      uses resource (verifyFields (above ++ below) old form).form = true
  · have hfree := hfree huses
    rw [if_pos huses]
    omega
  · rw [if_neg huses]
    omega

/-! ## Every run keeps the invariant -/

theorem Reordered.rows_perm {next : Grid page}
    (hreorder : Reordered grid next) : grid.rows.Perm next.rows := by
  cases hreorder with
  | same => exact Perm.refl _
  | sort hperm => exact hperm

theorem rows_edit (index : ℕ) (grid : Grid page) :
    (edit index grid).rows = grid.rows := by
  cases grid with
  | editing above source below => rfl
  | idle rows =>
    simp only [edit]
    cases hdrop : rows.drop index with
    | nil => rfl
    | cons source below =>
      change rows.take index ++ source :: below = rows
      rw [← hdrop, take_append_drop]

theorem rows_onCancel (grid : Grid page) :
    (onCancel grid).rows = grid.rows := by
  cases grid with
  | idle rows => rfl
  | editing above source below => rfl

theorem onDelete_sublist (grid : Grid page) :
    (onDelete grid).rows.Sublist grid.rows := by
  cases grid with
  | idle rows => exact Sublist.refl _
  | editing above source below =>
    exact (Sublist.refl above).append (sublist_cons_self source below)

theorem countP_onOK_le
    (resource : Resource page) (hcount : grid.rows.countP (uses resource) ≤ 1) :
    (onOK form grid).rows.countP (uses resource) ≤ 1 := by
  cases grid with
  | idle rows => exact hcount
  | editing above source below =>
    simp only [onOK]
    split
    · rename_i haccept
      refine countP_verified_le above below (some source) resource ?_ haccept
      simpa [Grid.rows] using hcount
    · exact hcount

theorem countP_onAdd_le
    (resource : Resource page) (hcount : grid.rows.countP (uses resource) ≤ 1) :
    (onAdd form grid).rows.countP (uses resource) ≤ 1 := by
  cases grid with
  | editing above source below => exact hcount
  | idle rows =>
    simp only [onAdd]
    split
    · rename_i haccept
      have hsplit : rows ++ [] = rows := append_nil rows
      rw [← hsplit] at haccept ⊢
      have hverified := countP_verified_le rows [] none resource
        (by simpa [Grid.rows] using hcount) haccept
      simpa [Grid.rows] using hverified
    · exact hcount

theorem perform_invariant (action : Action page)
    (hinvariant : Invariant grid) : Invariant (perform action grid) := by
  rw [invariant_iff] at hinvariant ⊢
  intro resource
  have hcount := hinvariant resource
  cases action with
  | edit index => simpa only [perform, rows_edit] using hcount
  | cancel => simpa only [perform, rows_onCancel] using hcount
  | delete => exact (onDelete_sublist grid).countP_le.trans hcount
  | ok form => exact countP_onOK_le form resource hcount
  | add form => exact countP_onAdd_le form resource hcount

theorem Step.invariant {action : Action page} {next : Grid page}
    (hstep : Step action grid next) (hinvariant : Invariant grid) :
    Invariant next := by
  have hperformed := perform_invariant action hinvariant
  rw [invariant_iff] at hperformed ⊢
  intro resource
  rw [← (Reordered.rows_perm hstep).countP_eq]
  exact hperformed resource

theorem Reaches.invariant {allowed : Grid page → Action page → Prop}
    {start finish : Grid page} (hreaches : Reaches allowed start finish)
    (hinvariant : Invariant start) : Invariant finish := by
  induction hreaches with
  | refl => exact hinvariant
  | tail _ hstep ih =>
    obtain ⟨action, -, hstep⟩ := hstep
    exact hstep.invariant ih

/-- Whatever the user does with the editors of the page, no two rows come to
share a VLAN id, an untagged port, a WAN, a LAN bridge or the default mark. -/
theorem reaches_invariant (start finish : Grid page)
    (hinvariant : Invariant start)
    (hreaches : Reaches (fun _ _ => True) start finish) :
    Invariant finish :=
  hreaches.invariant hinvariant

/-- The page of a router with nine ports, eight bridges and four WANs. -/
def x86Page : Page :=
  ⟨15, 8, 7, 4, Fin.val, Fin.val_injective⟩

/-- The default rows: port 0 is the WAN, the others are the first LAN. -/
def defaultRows : List (Row x86Page) :=
  [⟨0, bytes "0", fun index => if index = 0 then .on else .off, false,
      .wan ⟨0, by decide⟩⟩,
    ⟨1, bytes "0", fun index => if index = 0 then .off else .on, true, .lan 0⟩]

theorem defaultRows_invariant : Invariant (.idle defaultRows) :=
  ⟨by decide, by decide, by decide, by decide, by decide⟩

/-- The third row of a session: VLAN 5 tagged on port 3, with VID 7. -/
def guestRow : Row x86Page :=
  ⟨5, bytes " 07", fun index => if index = 3 then .tag else .off, true, .lan 1⟩

theorem reaches_invariant_guest :
    Invariant (perform (.add guestRow) (.idle defaultRows)) ∧
      (perform (.add guestRow) (.idle defaultRows)).rows.length = 3 :=
  ⟨reaches_invariant (.idle defaultRows) _ defaultRows_invariant
    (Relation.ReflTransGen.single ⟨_, trivial, Reordered.same _⟩), by decide⟩

/-- VLAN 3, tagged on port 1, for the second LAN. -/
def plainRow : Row x86Page :=
  ⟨3, bytes "0", fun index => if index.val = 1 then .tag else .off, false,
    .lan 1⟩

/-- VLAN 4 with VID 3, tagged on port 1, for the second WAN. -/
def mappedRow : Row x86Page :=
  ⟨4, bytes "3", fun index => if index.val = 1 then .tag else .off, false,
    .wan ⟨1, by decide⟩⟩

end Tomato64.VlanGrid
