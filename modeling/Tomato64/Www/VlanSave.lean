import Mathlib.Data.List.DropRight
import Mathlib.Data.List.Sort
import Mathlib.Logic.Function.Basic
import Tomato64.Core.Run
import Tomato64.Core.Split
import Tomato64.Www.VlanGrid

/-!
# What the VLAN page saves

`save` writes, for each row, the ports of the VLAN with their tags, its VID and
the bridge or WAN that it belongs to.  The bridge or WAN is also given the
interfaces that carry the VLAN: `ethP` for an untagged port and `ethP.vid` for
a tagged one, where the VID is the number in the second column or, without
one, the VLAN's own.

Two rows may ask for the same VID.  When they also tag the same port, both are
given the same interface; `verifyFields` does not look for this.
-/

namespace Tomato64.VlanGrid

open List Run Scan Text

variable {page : Page}

/-- `SWITCH_INTERNAL_PORT`, which is 0 until a default VLAN has been read. -/
structure InternalPort where
  text : Bytes
  text_ne_nil : text ≠ []
  isDigit_of_mem : ∀ char ∈ text, isDigit char = true

variable (text : Bytes)

def trailingSpace : Bytes :=
  if text ≠ [] ∧ text.getLast? ≠ some 32 then [32] else []

/-- The digits at the start of a text as a number, as `parseInt` reads it. -/
def parseInt : Option ℤ :=
  (scanNumber 10 text.length text).map Prod.fst

/-- `cmpInt` puts a text without a number in front of every other. -/
def cmpKey : ℤ :=
  (parseInt text).getD (-0x7FFFFFFF)

/-- The text of one port column. -/
def portMark (row : Row page) (index : Fin (page.maxPortId + 1)) : Bytes :=
  (if row.port index ≠ .off then decimal (page.portColName index) else []) ++
    (if row.port index = .tag then [116] else [])

def appendPort (row : Row page) (text : Bytes)
    (index : Fin (page.maxPortId + 1)) : Bytes :=
  let marked := text ++ portMark row index
  marked ++ trailingSpace marked

variable (internal : InternalPort)

def internalMark (row : Row page) : Bytes :=
  internal.text ++ (if row.native then [42] else [])

/-- `vlanNports`.  The browser's sort is stable. -/
def portsText (row : Row page) : Bytes :=
  let text := (finRange (page.maxPortId + 1)).foldl (appendPort row) [] ++
    internalMark internal row
  List.intercalate [32]
    ((text.splitOn 32).insertionSort fun left right =>
      cmpKey left ≤ cmpKey right)

/-! ## The interfaces of a row -/

/-- Whether the second column overrides the VLAN's number. -/
def overrides (row : Row page) : Bool :=
  row.map ≠ [] && row.map ≠ bytes "0"

def effectiveVid (row : Row page) : Bytes :=
  if overrides row then row.map else decimal row.vid

def ethName (index : Fin (page.maxPortId + 1)) : Bytes :=
  bytes "eth" ++ decimal index

def ifname (row : Row page) (index : Fin (page.maxPortId + 1)) : Option Bytes :=
  match row.port index with
  | .off => none
  | .on => some (ethName index)
  | .tag => some (ethName index ++ 46 :: effectiveVid row)

def ifnames (row : Row page) : List Bytes :=
  (finRange (page.maxPortId + 1)).filterMap (ifname row)

/-! ## The form -/

/-- The fields of the form.  `given` is a log of the interface names, each with
the bridge or WAN to whose field it was appended. -/
structure Fom (page : Page) where
  vlanPorts : Fin (page.maxVlanId + 1) → Bytes
  vlanHwname : Fin (page.maxVlanId + 1) → Bytes
  vlanVid : Fin (page.maxVlanId + 1) → Bytes
  lanIfnames : Fin (page.maxBridgeId + 1) → Bytes
  lanIfnamesVlan : Fin (page.maxBridgeId + 1) → Bytes
  wanIfnameX : Fin page.maxwanNum → Bytes
  wanIfnameXVlan : Fin page.maxwanNum → Bytes
  defaultVid : Bytes
  given : List (Bridge page × Bytes)

def Fom.wiped : Fom page :=
  ⟨fun _ => [], fun _ => [], fun _ => [], fun _ => [], fun _ => [],
    fun _ => [], fun _ => [], [], []⟩

/-- `text.trim()` -/
def trim : Bytes :=
  (text.dropWhile isSpace).rdropWhile isSpace

def vlanTag (row : Row page) : Bytes :=
  bytes "vlan" ++ decimal row.vid

variable (fom : Fom page)

/-- The fields that describe the VLAN itself. -/
def saveVlan (row : Row page) : Fom page :=
  { fom with
    vlanPorts := Function.update fom.vlanPorts row.vid (portsText internal row)
    vlanVid :=
      Function.update fom.vlanVid row.vid (if overrides row then row.map else [])
    defaultVid := fom.defaultVid ++ (if row.native then decimal row.vid else [])
    lanIfnamesVlan := fun lan =>
      fom.lanIfnamesVlan lan ++ (if row.bridge = .lan lan then vlanTag row else [])
    wanIfnameXVlan := fun wan =>
      fom.wanIfnameXVlan wan ++
        (if row.bridge = .wan wan then vlanTag row else []) }

/-- One round of the loop over the ports. -/
def saveIfname (row : Row page) (fom : Fom page)
    (index : Fin (page.maxPortId + 1)) : Fom page :=
  match ifname row index with
  | none => fom
  | some name =>
    { fom with
      vlanHwname :=
        if row.port index = .tag then
          Function.update fom.vlanHwname row.vid
            (fom.vlanHwname row.vid ++ ethName index ++ [32])
        else fom.vlanHwname
      lanIfnames := fun lan =>
        fom.lanIfnames lan ++
          (if row.bridge = .lan lan then name ++ [32] else [])
      wanIfnameX := fun wan =>
        fom.wanIfnameX wan ++ (if row.bridge = .wan wan then name else [])
      given := fom.given ++
        (if row.bridge = .none then [] else [(row.bridge, name)]) }

def saveRow (row : Row page) : Fom page :=
  let named := (finRange (page.maxPortId + 1)).foldl (saveIfname row)
    (saveVlan internal fom row)
  { named with
    vlanHwname :=
      Function.update named.vlanHwname row.vid (trim (named.vlanHwname row.vid))
    lanIfnames := fun lan => trim (named.lanIfnames lan) }

variable (rows : List (Row page))

def saveRows : Fom page :=
  rows.foldl (saveRow internal) Fom.wiped

variable (wan : Fin page.maxwanNum)

variable {grid : Grid page} {name : Bytes} {row form : Row page}

/-! ## The names that are given -/

/-- The names that one row gives, each with the row's bridge or WAN. -/
def rowGiven (row : Row page) : List (Bridge page × Bytes) :=
  if row.bridge = .none then [] else (ifnames row).map (row.bridge, ·)

theorem given_saveRow (fom : Fom page) (row : Row page) :
    (saveRow internal fom row).given = fom.given ++ rowGiven row := by
  have hround (fom : Fom page) (index : Fin (page.maxPortId + 1)) :
      (saveIfname row fom index).given = fom.given ++
        (if row.bridge = .none then []
          else (ifname row index).toList.map (row.bridge, ·)) := by
    rw [saveIfname]
    cases ifname row index with
    | none => simp
    | some name => rfl
  refine (foldl_field Fom.given hround _ (saveVlan internal fom row)).trans ?_
  rw [rowGiven, ifnames, filterMap_eq_flatMap_toList, map_flatMap]
  split
  · rw [flatMap_eq_nil_iff.mpr fun _ _ => rfl]
    rfl
  · rfl

theorem given_saveRows :
    (saveRows internal rows).given = rows.flatMap rowGiven :=
  foldl_field Fom.given (given_saveRow internal) rows Fom.wiped

theorem mem_rowGiven {bridge : Bridge page} :
    (bridge, name) ∈ rowGiven row ↔
      bridge = row.bridge ∧ bridge ≠ .none ∧ name ∈ ifnames row := by
  unfold rowGiven
  split
  · rename_i hnone
    simp only [not_mem_nil, false_iff]
    rintro ⟨rfl, hne, -⟩
    exact hne hnone
  · rename_i hne
    simp only [mem_map, Prod.mk.injEq]
    constructor
    · rintro ⟨name, hmem, rfl, rfl⟩
      exact ⟨rfl, hne, hmem⟩
    · rintro ⟨rfl, -, hmem⟩
      exact ⟨name, hmem, rfl, rfl⟩

/-- The names for a WAN, without anything in between. -/
def wanText (given : List (Bridge page × Bytes)) : Bytes :=
  (given.filter (·.1 = .wan wan)).flatMap Prod.snd

theorem wanIfnameX_saveRow (fom : Fom page) (row : Row page) :
    (saveRow internal fom row).wanIfnameX wan =
      fom.wanIfnameX wan ++ wanText wan (rowGiven row) := by
  have hround (fom : Fom page) (index : Fin (page.maxPortId + 1)) :
      (saveIfname row fom index).wanIfnameX wan = fom.wanIfnameX wan ++
        (if row.bridge = .wan wan then (ifname row index).toList.flatten
          else []) := by
    rw [saveIfname]
    cases ifname row index with
    | none => simp
    | some name => simp
  refine (foldl_field (Fom.wanIfnameX · wan) hround _
    (saveVlan internal fom row)).trans (congrArg _ ?_)
  unfold wanText rowGiven
  by_cases hwan : row.bridge = .wan wan
  · have hnames : (finRange (page.maxPortId + 1)).flatMap
        (fun index => (ifname row index).toList.flatten) =
          (ifnames row).flatten := by
      simp only [ifnames, filterMap_eq_flatMap_toList, flatten_eq_flatMap,
        flatMap_assoc]
    simp [hwan, hnames, filter_map, Function.comp_def, flatMap_map, flatMap_id']
  · by_cases hnone : row.bridge = .none
    · simp [hnone]
    · simp [hwan, hnone, filter_map, Function.comp_def]

/-- The field of a WAN holds the names that its rows give. -/
theorem wanIfnameX_saveRows :
    (saveRows internal rows).wanIfnameX wan =
      wanText wan (rows.flatMap rowGiven) := by
  have hfold := foldl_field (Fom.wanIfnameX · wan)
    (wanIfnameX_saveRow internal wan) rows Fom.wiped
  refine hfold.trans ?_
  rw [wanText, filter_flatMap, flatMap_assoc]
  rfl

/-! ## Names and their ports -/

/-- What follows the port number in the name of an interface. -/
def nameTail (row : Row page) (index : Fin (page.maxPortId + 1)) : Bytes :=
  if row.port index = .tag then 46 :: effectiveVid row else []

theorem head_nameTail (row : Row page) (index : Fin (page.maxPortId + 1)) :
    ∀ char, (nameTail row index).head? = some char → isDigit char = false := by
  intro char hhead
  unfold nameTail at hhead
  split at hhead
  · rw [head?_cons, Option.some.injEq] at hhead
    subst hhead
    decide
  · cases hhead

theorem ifname_eq_some_iff {index : Fin (page.maxPortId + 1)} :
    ifname row index = some name ↔
      row.port index ≠ .off ∧
        name = bytes "eth" ++ (decimal index ++ nameTail row index) := by
  unfold ifname nameTail ethName
  cases row.port index with
  | off => simp
  | on => simp [eq_comm]
  | tag => simp [eq_comm]

theorem mem_ifnames :
    name ∈ ifnames row ↔ ∃ index, ifname row index = some name := by
  simp [ifnames]

/-- A name tells the port, whether it is tagged, and the VID of a tag. -/
theorem ifname_inj {left right : Row page}
    {leftIndex rightIndex : Fin (page.maxPortId + 1)}
    (hleft : ifname left leftIndex = some name)
    (hright : ifname right rightIndex = some name) :
    leftIndex = rightIndex ∧
      ((left.port leftIndex = .on ∧ right.port leftIndex = .on) ∨
        (left.port leftIndex = .tag ∧ right.port leftIndex = .tag ∧
          effectiveVid left = effectiveVid right)) := by
  obtain ⟨hlon, hlname⟩ := ifname_eq_some_iff.mp hleft
  obtain ⟨hron, hrname⟩ := ifname_eq_some_iff.mp hright
  have htails := append_cancel_left (hlname.symm.trans hrname)
  obtain ⟨hindex, htail⟩ :=
    decimal_append_inj (head_nameTail left leftIndex)
      (head_nameTail right rightIndex) htails
  have hindex := Fin.ext hindex
  subst hindex
  refine ⟨rfl, ?_⟩
  unfold nameTail at htail
  cases hlport : left.port leftIndex <;> cases hrport : right.port leftIndex <;>
    simp_all

/-! ## Rows that share no interface -/

/-- Two rows with a bridge or WAN that tag one port with the same VID. -/
structure Clash (left right : Row page) : Prop where
  left_bridged : left.bridge ≠ .none
  right_bridged : right.bridge ≠ .none
  vid : effectiveVid left = effectiveVid right
  port : ∃ index, left.port index = .tag ∧ right.port index = .tag

/-- No name is given to two bridges, two WANs or a bridge and a WAN. -/
def Exclusive : Prop :=
  ∀ left ∈ rows, ∀ right ∈ rows, ∀ name ∈ ifnames left, name ∈ ifnames right →
    left.bridge ≠ .none → right.bridge ≠ .none → left.bridge = right.bridge

theorem Exclusive.mono {rows others : List (Row page)}
    (hexclusive : Exclusive rows) (hsubset : others ⊆ rows) :
    Exclusive others :=
  fun left hleft right hright =>
    hexclusive left (hsubset hleft) right (hsubset hright)

/-- A name that two rows share is untagged in both, or the rows clash. -/
theorem clash_of_mem_ifnames {left right : Row page}
    (hleft : name ∈ ifnames left) (hright : name ∈ ifnames right)
    (hlbridge : left.bridge ≠ .none) (hrbridge : right.bridge ≠ .none) :
    (∃ index, left.port index = .on ∧ right.port index = .on) ∨
      Clash left right := by
  obtain ⟨leftIndex, hlname⟩ := mem_ifnames.mp hleft
  obtain ⟨rightIndex, hrname⟩ := mem_ifnames.mp hright
  obtain ⟨-, hon | ⟨hltag, hrtag, hvid⟩⟩ := ifname_inj hlname hrname
  · exact .inl ⟨leftIndex, hon⟩
  · exact .inr ⟨hlbridge, hrbridge, hvid, leftIndex, hltag, hrtag⟩

theorem not_on_of_countP_le {above below : List (Row page)}
    {index : Fin (page.maxPortId + 1)}
    (hcount : (above ++ form :: below).countP (·.port index = .on) ≤ 1)
    (hform : form.port index = .on) (hrow : row ∈ above ++ below) :
    row.port index ≠ .on := by
  intro hon
  have hpos : 0 < (above ++ below).countP (·.port index = .on) :=
    countP_pos_iff.mpr ⟨row, hrow, decide_eq_true hon⟩
  simp only [countP_append, countP_cons, hform, decide_true, if_true]
    at hcount hpos
  omega

/-- A row that clashes with none of the others shares no interface with them,
because no untagged port has two rows. -/
theorem Exclusive.insert {above below : List (Row page)} {form : Row page}
    (hexclusive : Exclusive (above ++ below)) (hcount : ∀ index,
      (above ++ form :: below).countP (·.port index = .on) ≤ 1)
    (hclash : ∀ row ∈ above ++ below, ¬ Clash form row) :
    Exclusive (above ++ form :: below) := by
  have hcross : ∀ row ∈ above ++ below, ∀ name ∈ ifnames form,
      name ∈ ifnames row → form.bridge ≠ .none → row.bridge ≠ .none → False := by
    intro row hrow name hform hname hfbridge hrbridge
    rcases clash_of_mem_ifnames hform hname hfbridge hrbridge with
      ⟨index, hfon, hron⟩ | hbad
    · exact not_on_of_countP_le (hcount index) hfon hrow hron
    · exact hclash row hrow hbad
  have hcases : ∀ row ∈ above ++ form :: below,
      row = form ∨ row ∈ above ++ below := by
    intro row hrow
    simpa [or_left_comm] using hrow
  intro left hleft right hright name hlname hrname hlbridge hrbridge
  rcases hcases left hleft with rfl | hlold <;>
    rcases hcases right hright with rfl | hrold
  · rfl
  · exact (hcross right hrold name hlname hrname hlbridge hrbridge).elim
  · exact (hcross left hlold name hrname hlname hrbridge hlbridge).elim
  · exact hexclusive left hlold right hrold name hlname hrname hlbridge hrbridge

/-! ## Runs -/

/-- The editor is not asked to store a row that clashes with one that is
shown. -/
def NoClash (grid : Grid page) : Action page → Prop
  | .ok form | .add form =>
    ∀ row ∈ grid.getAllData, ¬ Clash (settleForm grid.getAllData form) row
  | _ => True

theorem onOK_exclusive (hexclusive : Exclusive grid.rows)
    (hinvariant : Invariant (onOK form grid))
    (hclash : NoClash grid (.ok form)) : Exclusive (onOK form grid).rows := by
  cases grid with
  | idle rows => exact hexclusive
  | editing above source below =>
    simp only [onOK] at hinvariant ⊢
    split at hinvariant
    · rename_i haccept
      rw [if_pos haccept]
      refine Exclusive.insert (hexclusive.mono ?_) hinvariant.untagged hclash
      exact ((Sublist.refl above).append
        (sublist_cons_self source below)).subset
    · rename_i hreject
      rw [if_neg hreject]
      exact hexclusive

theorem onAdd_exclusive (hexclusive : Exclusive grid.rows)
    (hinvariant : Invariant (onAdd form grid))
    (hclash : NoClash grid (.add form)) : Exclusive (onAdd form grid).rows := by
  cases grid with
  | editing above source below => exact hexclusive
  | idle rows =>
    simp only [onAdd] at hinvariant ⊢
    split at hinvariant
    · rename_i haccept
      rw [if_pos haccept]
      refine Exclusive.insert ?_ hinvariant.untagged ?_
      · rw [append_nil]
        exact hexclusive
      · rw [append_nil]
        exact hclash
    · rename_i hreject
      rw [if_neg hreject]
      exact hexclusive

theorem perform_exclusive {action : Action page} (hinvariant : Invariant grid)
    (hexclusive : Exclusive grid.rows) (hclash : NoClash grid action) :
    Exclusive (perform action grid).rows := by
  have hnext := perform_invariant action hinvariant
  cases action with
  | edit index => simpa only [perform, rows_edit] using hexclusive
  | cancel => simpa only [perform, rows_onCancel] using hexclusive
  | delete => exact hexclusive.mono (onDelete_sublist grid).subset
  | ok form => exact onOK_exclusive hexclusive hnext hclash
  | add form => exact onAdd_exclusive hexclusive hnext hclash

theorem Reaches.exclusive {start finish : Grid page}
    (hreaches : Reaches NoClash start finish) (hinvariant : Invariant start)
    (hexclusive : Exclusive start.rows) : Exclusive finish.rows := by
  induction hreaches with
  | refl => exact hexclusive
  | tail hbefore hstep ih =>
    obtain ⟨action, hclash, hstep⟩ := hstep
    have hperformed := perform_exclusive
      (Reaches.invariant hbefore hinvariant) ih hclash
    exact hperformed.mono (Reordered.rows_perm hstep).symm.subset

/-- No name stands in the fields of two bridges, two WANs or one of each. -/
def GivenOnce : Prop :=
  ∀ left right name, (left, name) ∈ fom.given → (right, name) ∈ fom.given →
    left = right

theorem givenOnce_iff :
    GivenOnce (saveRows internal rows) ↔ Exclusive rows := by
  simp only [GivenOnce, given_saveRows, mem_flatMap, mem_rowGiven]
  constructor
  · intro hgiven left hleft right hright name hlname hrname hlbridge hrbridge
    exact hgiven left.bridge right.bridge name
      ⟨left, hleft, rfl, hlbridge, hlname⟩ ⟨right, hright, rfl, hrbridge, hrname⟩
  · rintro hexclusive left right name ⟨leftRow, hleft, rfl, hlbridge, hlname⟩
      ⟨rightRow, hright, rfl, hrbridge, hrname⟩
    exact hexclusive leftRow hleft rightRow hright name hlname hrname hlbridge
      hrbridge

/-- From a grid that gives no interface away twice, every session in which no
stored row clashes with another one saves forms that give none away twice. -/
theorem reaches_givenOnce (internal : InternalPort) (start : Grid page)
    (rows : List (Row page)) (hinvariant : Invariant start)
    (hstart : GivenOnce (saveRows internal start.rows))
    (hreaches : Reaches NoClash start (.idle rows)) :
    GivenOnce (saveRows internal rows) := by
  rw [givenOnce_iff] at hstart ⊢
  exact hreaches.exclusive hinvariant hstart

/-- The internal port of the default settings. -/
def port9 : InternalPort :=
  ⟨bytes "9", by decide, by decide⟩

theorem defaultRows_untagged :
    ∀ row ∈ defaultRows, ∀ index, row.port index ≠ .tag := by
  decide

theorem defaultRows_exclusive : Exclusive defaultRows := by
  intro left hleft right hright name hlname hrname hlbridge hrbridge
  rcases clash_of_mem_ifnames hlname hrname hlbridge hrbridge with
    ⟨index, hlon, hron⟩ | hclash
  · simp only [defaultRows, mem_cons, not_mem_nil, or_false]
      at hleft hright
    rcases hleft with rfl | rfl <;> rcases hright with rfl | rfl <;>
      simp_all
  · obtain ⟨index, htag, -⟩ := hclash.port
    exact (defaultRows_untagged left hleft index htag).elim

theorem reaches_givenOnce_guest :
    GivenOnce (saveRows port9
      (perform (.add guestRow) (.idle defaultRows)).rows) := by
  refine reaches_givenOnce port9 (.idle defaultRows) _ defaultRows_invariant
    ((givenOnce_iff _ _).mpr defaultRows_exclusive)
    (Relation.ReflTransGen.single ⟨.add guestRow, ?_, Reordered.same _⟩)
  rintro row hrow ⟨-, -, -, index, -, htag⟩
  exact defaultRows_untagged row hrow index htag

/-- A verified row that the editor need not change is stored as it is. -/
theorem step_add (form : Row page)
    (haccept : (verifyFields rows none form).errors = [])
    (hmap : vRange 0 4094 form.map = some form.map)
    (hnative : form.native = false) :
    Step (.add form) (.idle rows) (.idle (rows ++ [form])) := by
  have hform : (verifyFields rows none form).form = form := by
    change settleForm rows form = form
    simp [settleForm, hmap, ← hnative]
  have hperform : perform (.add form) (.idle rows) = .idle (rows ++ [form]) := by
    simp only [perform, onAdd]
    rw [if_pos haccept, hform]
  rw [Step, hperform]
  exact Reordered.same _

/-- Two verified rows may ask for the same VID on the same port.  The
interface `eth1.3` is then given to a bridge and to a WAN. -/
theorem reaches_given_twice :
    Invariant (.idle defaultRows) ∧
      GivenOnce (saveRows port9 defaultRows) ∧
      Reaches (fun _ _ => True) (.idle defaultRows)
        (.idle (defaultRows ++ [plainRow] ++ [mappedRow])) ∧
      (.lan 1, bytes "eth1.3") ∈
        (saveRows port9 (defaultRows ++ [plainRow] ++ [mappedRow])).given ∧
      (.wan ⟨1, by decide⟩, bytes "eth1.3") ∈
        (saveRows port9 (defaultRows ++ [plainRow] ++ [mappedRow])).given := by
  refine ⟨defaultRows_invariant,
    (givenOnce_iff _ _).mpr defaultRows_exclusive, ?_, ?_, ?_⟩
  · have hplain := step_add defaultRows plainRow (by decide)
      (by decide +kernel) rfl
    have hmapped := step_add (defaultRows ++ [plainRow]) mappedRow (by decide)
      (by decide +kernel) rfl
    exact (Relation.ReflTransGen.single ⟨_, trivial, hplain⟩).tail
      ⟨_, trivial, hmapped⟩
  · rw [given_saveRows]
    decide +kernel
  · rw [given_saveRows]
    decide +kernel

end Tomato64.VlanGrid
