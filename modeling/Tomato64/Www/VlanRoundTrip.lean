import Tomato64.Core.Number
import Tomato64.Core.Writes
import Tomato64.Www.VlanSave

/-!
# Reading the VLAN page's settings back

`populate` fills the grid from the stored variables: a row for each VLAN that
has ports, with the bridge or WAN whose shadow variable names it.  The port
list also holds the switch's internal port, with a star in the default VLAN.
`populate` takes it for a member like any other, so the round trip succeeds
when the internal port is none of the columns.  Otherwise that column comes
back as untagged.
-/

namespace Tomato64.VlanGrid

open List Number Scan Split Text Writes

variable {page : Page}

structure Nvram (page : Page) where
  vlanPorts : Fin (page.maxVlanId + 1) → Bytes
  vlanHwname : Fin (page.maxVlanId + 1) → Bytes
  vlanVid : Fin (page.maxVlanId + 1) → Bytes
  lanIfname : Fin (page.maxBridgeId + 1) → Bytes
  lanIfnamesVlan : Fin (page.maxBridgeId + 1) → Bytes
  wanIfnameXVlan : Fin page.maxwanNum → Bytes

/-- The variables after a form is submitted.  The bridges' own names are set on
another page. -/
def Fom.stored (lanIfname : Fin (page.maxBridgeId + 1) → Bytes)
    (fom : Fom page) : Nvram page :=
  ⟨fom.vlanPorts, fom.vlanHwname, fom.vlanVid, lanIfname, fom.lanIfnamesVlan,
    fom.wanIfnameXVlan⟩

/-! ## The bridges -/

/-- `word.replace('vlan', '')` -/
def dropVlan (word : Bytes) : Bytes :=
  match splitAtKey (bytes "vlan") word with
  | none => word
  | some (before, behind) => before ++ behind

def lanBridge (nvram : Nvram page) (lan : Fin (page.maxBridgeId + 1)) :
    Bridge page :=
  if nvram.lanIfname lan ≠ [] then .lan lan else .none

def lanWrite (nvram : Nvram page) (lan : Fin (page.maxBridgeId + 1))
    (word : Bytes) : Option (ℤ × Bridge page) :=
  if (splitAtKey (bytes "vlan") word).isSome then
    (parseInt (dropVlan word)).map (·, lanBridge nvram lan)
  else none

def lanWrites (nvram : Nvram page) (lan : Fin (page.maxBridgeId + 1)) :
    List (ℤ × Bridge page) :=
  ((nvram.lanIfnamesVlan lan).splitOn 32).filterMap (lanWrite nvram lan)

def wanWrite (nvram : Nvram page) (wan : Fin page.maxwanNum) :
    Option (ℤ × Bridge page) :=
  (parseInt (dropVlan (nvram.wanIfnameXVlan wan))).map (·, .wan wan)

def bridgeWrites (nvram : Nvram page) : List (ℤ × Bridge page) :=
  (finRange (page.maxBridgeId + 1)).flatMap (lanWrites nvram) ++
    (finRange page.maxwanNum).filterMap (wanWrite nvram)

/-- A VLAN without an entry has no bridge. -/
def bridged (nvram : Nvram page) : ℤ → Bridge page :=
  written (bridgeWrites nvram) fun _ => .none

/-! ## The rows -/

/-- What one word of the port list writes into `port` and `tagged`. -/
def portWrite (word : Bytes) : Option (ℤ × PortState) :=
  (parseInt word).map (·, if 116 ∈ word then .tag else .on)

def portStates (words : List Bytes) : ℤ → PortState :=
  written (words.filterMap portWrite) fun _ => .off

variable (engine : Engine)

def readVid (vid : Bytes) : Bytes :=
  let number := engine.ofText vid
  if vid ≠ [] ∧ engine.isNaN number = false ∧
      engine.ge (engine.ofNat 0) number = false then vid
  else bytes "0"

def readRow (nvram : Nvram page)
    (vlan : Fin (page.maxVlanId + 1)) : Option (Row page) :=
  if nvram.vlanHwname vlan ≠ [] ∨ nvram.vlanPorts vlan ≠ [] then
    let states := portStates ((nvram.vlanPorts vlan).splitOn 32)
    some
      { vid := vlan
        map := readVid engine (nvram.vlanVid vlan)
        port := fun index => states (page.portColName index)
        native := decide (42 ∈ nvram.vlanPorts vlan)
        bridge := bridged nvram vlan }
  else none

/-- A run of digits with a star behind it, at the start of the text. -/
def starAtStart (text : Bytes) : Option InternalPort :=
  if hdigits : text.takeWhile isDigit ≠ [] ∧
      (text.dropWhile isDigit).head? = some 42 then
    some ⟨text.takeWhile isDigit, hdigits.1,
      fun _ hchar => mem_takeWhile_imp hchar⟩
  else none

def starBehindSpace : Bytes → Option InternalPort
  | [] => none
  | char :: text =>
    if isSpace char then (starAtStart text).or (starBehindSpace text)
    else starBehindSpace text

/-- `ports.match(/(?:^|\s)(\d+)\*/)` -/
def internalPort (ports : Bytes) : Option InternalPort :=
  (starAtStart ports).or (starBehindSpace ports)

/-- The rows in the order of their VLANs, and the last internal port found. -/
def populate (nvram : Nvram page) (internal : InternalPort) :
    List (Row page) × InternalPort :=
  let vlans := finRange (page.maxVlanId + 1)
  (vlans.filterMap (readRow engine nvram),
    vlans.foldl
      (fun internal vlan =>
        (internalPort (nvram.vlanPorts vlan)).getD internal) internal)

/-! ## The words of a port list -/

def portWord (row : Row page) (index : Fin (page.maxPortId + 1)) :
    Option Bytes :=
  if row.port index = .off then none else some (portMark row index)

variable (internal : InternalPort)

/-- The words before they are sorted. -/
def portWords (row : Row page) : List Bytes :=
  (finRange (page.maxPortId + 1)).filterMap (portWord row) ++
    [internalMark internal row]

variable {char : Byte} {index : Fin (page.maxPortId + 1)} {row : Row page}

theorem portMark_off (hoff : row.port index = .off) :
    portMark row index = [] := by
  simp [portMark, hoff]

theorem portMark_of_ne_off (hon : row.port index ≠ .off) :
    portMark row index = decimal (page.portColName index) ++
      (if row.port index = .tag then [116] else []) := by
  simp [portMark, hon]

theorem mem_append_mark {digits : Bytes} {mark : Byte} {marked : Prop}
    [Decidable marked] (hdigits : ∀ char ∈ digits, isDigit char = true)
    (hchar : char ∈ digits ++ if marked then [mark] else []) :
    isDigit char = true ∨ (char = mark ∧ marked) := by
  rcases mem_append.mp hchar with hdigit | hmark
  · exact .inl (hdigits char hdigit)
  · split at hmark
    · next hmarked => exact .inr ⟨mem_singleton.mp hmark, hmarked⟩
    · cases hmark

theorem mem_portMark (hchar : char ∈ portMark row index) :
    isDigit char = true ∨ (char = 116 ∧ row.port index = .tag) := by
  by_cases hoff : row.port index = .off
  · rw [portMark_off hoff] at hchar
    cases hchar
  · rw [portMark_of_ne_off hoff] at hchar
    exact mem_append_mark (isDigit_of_mem_decimal _) hchar

theorem notMem_portMark (hdigit : isDigit char = false) (hmark : char ≠ 116) :
    char ∉ portMark row index := by
  intro hmem
  rcases mem_portMark hmem with htrue | ⟨ht, -⟩
  · exact absurd htrue (by simp [hdigit])
  · exact hmark ht

theorem mem_internalMark {internal : InternalPort}
    (hchar : char ∈ internalMark internal row) :
    isDigit char = true ∨ (char = 42 ∧ row.native = true) :=
  mem_append_mark internal.isDigit_of_mem hchar

theorem notMem_internalMark (hdigit : isDigit char = false)
    (hmark : char ≠ 42) : char ∉ internalMark internal row := by
  intro hmem
  rcases mem_internalMark hmem with htrue | ⟨hstar, -⟩
  · exact absurd htrue (by simp [hdigit])
  · exact hmark hstar

theorem internalMark_ne_nil (row : Row page) :
    internalMark internal row ≠ [] := by
  simp [internalMark, internal.text_ne_nil]

/-- The piece that one round of the loop appends. -/
def portPiece (row : Row page) (index : Fin (page.maxPortId + 1)) : Bytes :=
  if row.port index = .off then [] else portMark row index ++ [32]

theorem appendPort_eq {text : Bytes}
    (htext : text = [] ∨ text.getLast? = some 32)
    (index : Fin (page.maxPortId + 1)) :
    appendPort row text index = text ++ portPiece row index := by
  unfold appendPort portPiece
  by_cases hoff : row.port index = .off
  · have hspace : trailingSpace text = [] := by
      unfold trailingSpace
      rcases htext with rfl | hlast
      · simp
      · simp [hlast]
    simp only [portMark_off hoff, append_nil, hspace, if_pos hoff]
  have hne : portMark row index ≠ [] := by
    obtain ⟨first, others, hfirst, -⟩ :=
      exists_decimal_eq_cons (page.portColName index)
    rw [portMark_of_ne_off hoff, hfirst]
    simp
  have hlast : (text ++ portMark row index).getLast? ≠ some 32 := by
    rw [getLast?_append_of_ne_nil _ hne]
    intro hspace
    exact notMem_portMark rfl (by decide) (mem_of_getLast? hspace)
  have hspace : trailingSpace (text ++ portMark row index) = [32] :=
    if_pos ⟨by simp [hne], hlast⟩
  simp only [hspace, if_neg hoff, append_assoc]

theorem portPiece_getLast (row : Row page) (text : Bytes)
    (htext : text = [] ∨ text.getLast? = some 32)
    (index : Fin (page.maxPortId + 1)) :
    text ++ portPiece row index = [] ∨
      (text ++ portPiece row index).getLast? = some 32 := by
  unfold portPiece
  split
  · simpa using htext
  · right
    rw [← append_assoc, getLast?_append_of_ne_nil _ (by simp)]
    rfl

theorem foldl_appendPort (row : Row page) {text : Bytes}
    (htext : text = [] ∨ text.getLast? = some 32)
    (indices : List (Fin (page.maxPortId + 1))) :
    indices.foldl (appendPort row) text =
      text ++ indices.flatMap (portPiece row) := by
  induction indices generalizing text with
  | nil => simp
  | cons index indices ih =>
    rw [foldl_cons, appendPort_eq htext,
      ih (portPiece_getLast row text htext index), flatMap_cons, append_assoc]

theorem splitOn_portPieces (row : Row page) {last : Bytes} (hlast : 32 ∉ last)
    (indices : List (Fin (page.maxPortId + 1))) :
    (indices.flatMap (portPiece row) ++ last).splitOn 32 =
      indices.filterMap (portWord row) ++ [last] := by
  induction indices with
  | nil => exact splitOn_eq_singleton hlast
  | cons index indices ih =>
    by_cases hoff : row.port index = .off
    · simpa [portPiece, portWord, hoff] using ih
    have hword : portWord row index = some (portMark row index) :=
      if_neg hoff
    rw [flatMap_cons, filterMap_cons_some hword, portPiece, if_neg hoff]
    simp only [append_assoc, cons_append, nil_append]
    rw [splitOn_append_cons_self_of_not_mem (notMem_portMark rfl (by decide)), ih]

/-- The words of the stored list are those of the row, sorted. -/
theorem splitOn_portsText (row : Row page) :
    (portsText internal row).splitOn 32 =
      (portWords internal row).insertionSort fun left right =>
        cmpKey left ≤ cmpKey right := by
  have hwords := splitOn_portPieces row
    (@notMem_internalMark _ internal 32 row rfl (by decide))
    (finRange (page.maxPortId + 1))
  have htext := foldl_appendPort row (.inl rfl)
    (finRange (page.maxPortId + 1))
  unfold portsText
  dsimp only
  rw [htext, nil_append, hwords]
  refine splitOn_intercalate 32 ?_ ?_
  · intro word hword
    rw [mem_insertionSort] at hword
    rcases mem_append.mp hword with hport | hinternal
    · obtain ⟨index, -, hindex⟩ := mem_filterMap.mp hport
      rw [portWord, Option.ite_none_left_eq_some] at hindex
      rw [← Option.some.inj hindex.2]
      exact notMem_portMark rfl (by decide)
    · rw [mem_singleton.mp hinternal]
      exact notMem_internalMark internal rfl (by decide)
  · intro hnil
    have hperm := (perm_insertionSort (fun left right =>
      cmpKey left ≤ cmpKey right) (portWords internal row)).length_eq
    rw [portWords, hnil] at hperm
    simp at hperm

/-! ## The states of the ports -/

def InternalPort.number : ℕ :=
  valueOf 10 internal.text

theorem parseInt_digits {digits rest : Bytes} (hne : digits ≠ [])
    (hdigits : ∀ char ∈ digits, isDigit char = true)
    (hrest : ∀ char, rest.head? = some char → isDigit char = false) :
    parseInt (digits ++ rest) = some (valueOf 10 digits : ℤ) := by
  rw [parseInt, scanNumber_digits hne (fun char hchar => ?_)
    (fun char hchar => ?_) le_rfl, Option.map_some]
  · rw [isDigitOf_ten]
    exact hdigits char hchar
  · rw [isDigitOf_ten]
    exact hrest char hchar

theorem isDigit_head_mark {mark : Byte} {marked : Prop} [Decidable marked]
    (hmark : isDigit mark = false) (char : Byte)
    (hchar : (if marked then [mark] else []).head? = some char) :
    isDigit char = false := by
  split at hchar
  · rw [← Option.some.inj hchar]
    exact hmark
  · cases hchar

theorem parseInt_decimal (number : ℕ) (rest : Bytes)
    (hrest : ∀ char, rest.head? = some char → isDigit char = false) :
    parseInt (decimal number ++ rest) = some (number : ℤ) := by
  obtain ⟨first, others, hfirst, -⟩ := exists_decimal_eq_cons number
  rw [parseInt_digits (by simp [hfirst]) (isDigit_of_mem_decimal number) hrest,
    valueOf_decimal]

theorem portWrite_portMark (hon : row.port index ≠ .off) :
    portWrite (portMark row index) =
      some ((page.portColName index : ℤ), row.port index) := by
  have hparse : parseInt (portMark row index) =
      some (page.portColName index : ℤ) := by
    rw [portMark_of_ne_off hon]
    exact parseInt_decimal _ _ (isDigit_head_mark rfl)
  have hmark : 116 ∈ portMark row index ↔ row.port index = .tag := by
    constructor
    · intro hmem
      rcases mem_portMark hmem with hdigit | ⟨-, htag⟩
      · exact absurd hdigit (by decide)
      · exact htag
    · intro htag
      simp [portMark_of_ne_off hon, htag]
  rw [portWrite, hparse, Option.map_some]
  cases hport : row.port index with
  | off => exact (hon hport).elim
  | on => rw [if_neg (by simp [hmark, hport])]
  | tag => rw [if_pos (hmark.mpr hport)]

theorem portWrite_internalMark (row : Row page) :
    portWrite (internalMark internal row) =
      some ((internal.number : ℤ), .on) := by
  have hparse : parseInt (internalMark internal row) =
      some (internal.number : ℤ) :=
    parseInt_digits internal.text_ne_nil internal.isDigit_of_mem
      (isDigit_head_mark rfl)
  have hmark : 116 ∉ internalMark internal row :=
    notMem_internalMark internal rfl (by decide)
  rw [portWrite, hparse, Option.map_some, if_neg hmark]

def portEntry (row : Row page) (index : Fin (page.maxPortId + 1)) :
    Option (ℤ × PortState) :=
  if row.port index = .off then none
  else some ((page.portColName index : ℤ), row.port index)

theorem filterMap_portWrite (row : Row page) :
    (portWords internal row).filterMap portWrite =
      (finRange (page.maxPortId + 1)).filterMap (portEntry row) ++
        [((internal.number : ℤ), .on)] := by
  have hentry : ∀ index, (portWord row index).bind portWrite =
      portEntry row index := by
    intro index
    unfold portWord portEntry
    by_cases hoff : row.port index = .off
    · simp [hoff]
    · simp only [if_neg hoff, Option.bind_some]
      exact portWrite_portMark hoff
  rw [portWords, filterMap_append, filterMap_filterMap]
  congr 1
  · exact filterMap_congr fun index _ => hentry index
  · simp [portWrite_internalMark]

theorem written_portEntry (row : Row page) (index : Fin (page.maxPortId + 1)) :
    written ((finRange (page.maxPortId + 1)).filterMap (portEntry row))
      (fun _ => .off) (page.portColName index : ℤ) = row.port index := by
  have hentry : ∀ state,
      ((page.portColName index : ℤ), state) ∈
          (finRange (page.maxPortId + 1)).filterMap (portEntry row) ↔
        row.port index ≠ .off ∧ state = row.port index := by
    intro state
    simp only [mem_filterMap, mem_finRange, true_and, portEntry,
      Option.ite_none_left_eq_some, Option.some.injEq, Prod.mk.injEq,
      Nat.cast_inj]
    constructor
    · rintro ⟨other, hon, hname, rfl⟩
      obtain rfl := page.portColName_injective hname
      exact ⟨hon, rfl⟩
    · rintro ⟨hon, rfl⟩
      exact ⟨index, hon, rfl, rfl⟩
  refine written_eq_of_forall (fun state hstate => ((hentry state).mp hstate).2) ?_
  by_cases hoff : row.port index = .off
  · exact .inr hoff.symm
  · exact .inl ⟨row.port index, (hentry _).mpr ⟨hoff, rfl⟩⟩

theorem cmpKey_of_portWrite {word : Bytes} {entry : ℤ × PortState}
    (hwrite : portWrite word = some entry) : cmpKey word = entry.1 := by
  obtain ⟨number, hnumber, rfl⟩ := Option.map_eq_some_iff.mp hwrite
  rw [cmpKey, hnumber, Option.getD_some]

/-- The states that are read back: the internal port is on, and every other
port is as it was. -/
theorem portStates_portsText (row : Row page)
    (index : Fin (page.maxPortId + 1)) :
    portStates ((portsText internal row).splitOn 32)
        (page.portColName index : ℤ) =
      if page.portColName index = internal.number then .on
      else row.port index := by
  rw [portStates, splitOn_portsText, written_insertionSort, filterMap_portWrite,
    written, foldl_append, foldl_cons, foldl_nil]
  · by_cases hinternal : page.portColName index = internal.number
    · rw [if_pos hinternal, hinternal, Function.update_self]
    · have hne : (page.portColName index : ℤ) ≠ internal.number := by
        exact_mod_cast hinternal
      rw [if_neg hinternal, Function.update_of_ne hne]
      exact written_portEntry row index
  · intro left right leftEntry rightEntry hleft hright hkey
    rw [cmpKey_of_portWrite hleft, cmpKey_of_portWrite hright, hkey]

theorem star_mem_portsText (row : Row page) :
    42 ∈ portsText internal row ↔ row.native = true := by
  rw [mem_iff_exists_mem_splitOn (show (42 : Byte) ≠ 32 by decide),
    splitOn_portsText]
  simp only [mem_insertionSort, portWords, mem_append, mem_singleton]
  constructor
  swap
  · intro hnative
    exact ⟨_, .inr rfl, by simp [internalMark, hnative]⟩
  rintro ⟨word, hword | rfl, hstar⟩
  · obtain ⟨index, -, hindex⟩ := mem_filterMap.mp hword
    rw [portWord, Option.ite_none_left_eq_some] at hindex
    rw [← Option.some.inj hindex.2] at hstar
    exact (notMem_portMark rfl (by decide) hstar).elim
  · rcases mem_internalMark hstar with hdigit | ⟨-, hnative⟩
    · exact absurd hdigit (by decide)
    · exact hnative

theorem portsText_ne_nil (row : Row page) : portsText internal row ≠ [] := by
  intro hnil
  have hmem : internalMark internal row ∈
      (portsText internal row).splitOn 32 := by
    rw [splitOn_portsText, mem_insertionSort]
    simp [portWords]
  rw [hnil, splitOn_eq_singleton not_mem_nil, mem_singleton] at hmem
  exact internalMark_ne_nil internal row hmem

/-! ## The form of some rows -/

theorem foldl_saveIfname_frame (row : Row page)
    (indices : List (Fin (page.maxPortId + 1))) (fom : Fom page) :
    let named := indices.foldl (saveIfname row) fom
    named.vlanPorts = fom.vlanPorts ∧ named.vlanVid = fom.vlanVid ∧
      named.lanIfnamesVlan = fom.lanIfnamesVlan ∧
      named.wanIfnameXVlan = fom.wanIfnameXVlan ∧
      ∀ vid ≠ row.vid, named.vlanHwname vid = fom.vlanHwname vid := by
  refine foldlRecOn indices (saveIfname row) (motive := fun named =>
    named.vlanPorts = fom.vlanPorts ∧ named.vlanVid = fom.vlanVid ∧
      named.lanIfnamesVlan = fom.lanIfnamesVlan ∧
      named.wanIfnameXVlan = fom.wanIfnameXVlan ∧
      ∀ vid ≠ row.vid, named.vlanHwname vid = fom.vlanHwname vid)
    ⟨rfl, rfl, rfl, rfl, fun _ _ => rfl⟩ ?_
  rintro named ⟨hports, hvid, hlan, hwan, hhwname⟩ index -
  unfold saveIfname
  cases ifname row index with
  | none => exact ⟨hports, hvid, hlan, hwan, hhwname⟩
  | some name =>
    refine ⟨hports, hvid, hlan, hwan, fun vid hne => ?_⟩
    dsimp only
    split
    · rw [Function.update_of_ne hne, hhwname vid hne]
    · exact hhwname vid hne

section
variable (internal : InternalPort) (rows : List (Row page)) (fom : Fom page)

theorem foldl_saveRow_written
    (field : Fom page → Fin (page.maxVlanId + 1) → Bytes)
    {value : Row page → Bytes}
    (hrow : ∀ fom row, field (saveRow internal fom row) =
      Function.update (field fom) row.vid (value row)) :
    field (rows.foldl (saveRow internal) fom) =
      written (rows.map fun row => (row.vid, value row)) (field fom) := by
  induction rows generalizing fom with
  | nil => rfl
  | cons row rows ih =>
    rw [foldl_cons, ih, hrow]
    rfl

theorem foldl_saveRow_tags (field : Fom page → Bytes) {bridge : Bridge page}
    (hrow : ∀ fom row, field (saveRow internal fom row) =
      field fom ++ (if row.bridge = bridge then vlanTag row else [])) :
    field (rows.foldl (saveRow internal) fom) =
      field fom ++ (rows.filter (·.bridge = bridge)).flatMap vlanTag := by
  induction rows generalizing fom with
  | nil => simp
  | cons row rows ih =>
    rw [foldl_cons, ih, hrow]
    by_cases hbridge : row.bridge = bridge <;> simp [hbridge]

theorem vlanPorts_foldl_saveRow :
    (rows.foldl (saveRow internal) fom).vlanPorts =
      written (rows.map fun row => (row.vid, portsText internal row))
        fom.vlanPorts :=
  foldl_saveRow_written internal rows fom Fom.vlanPorts fun fom row =>
    (foldl_saveIfname_frame row _ (saveVlan internal fom row)).1

theorem vlanHwname_foldl_saveRow {vid : Fin (page.maxVlanId + 1)}
    (hvid : vid ∉ rows.map Row.vid) :
    (rows.foldl (saveRow internal) fom).vlanHwname vid =
      fom.vlanHwname vid := by
  induction rows generalizing fom with
  | nil => rfl
  | cons row rows ih =>
    rw [map_cons, mem_cons, not_or] at hvid
    rw [foldl_cons, ih _ hvid.2, saveRow]
    dsimp only
    rw [Function.update_of_ne hvid.1]
    exact (foldl_saveIfname_frame row _
      (saveVlan internal fom row)).2.2.2.2 vid hvid.1

end

/-! ## Valid grids -/

/-- A grid that the page saves.  The VID column is empty or holds a number. -/
structure ValidRows (lanIfname : Fin (page.maxBridgeId + 1) → Bytes)
    (rows : List (Row page)) : Prop where
  vid : (rows.map Row.vid).Nodup
  wan : ∀ unit, rows.countP (·.bridge = .wan unit) ≤ 1
  lan : ∀ unit, rows.countP (·.bridge = .lan unit) ≤ 1
  native : rows.countP (·.native) = 1
  map : ∀ row ∈ rows, row.map = [] ∨ ∃ number ≤ 4094, row.map = decimal number
  enabled : ∀ row ∈ rows, ∀ lan, row.bridge = .lan lan → lanIfname lan ≠ []

/-- A row with an empty VID shown as 0. -/
def shownRow (row : Row page) : Row page :=
  { row with map := if row.map = [] then bytes "0" else row.map }

section
variable {internal : InternalPort} {rows : List (Row page)}
variable {lanIfname : Fin (page.maxBridgeId + 1) → Bytes}

theorem ValidRows.eq_of_vid (hvalid : ValidRows lanIfname rows)
    {left right : Row page} (hleft : left ∈ rows) (hright : right ∈ rows)
    (hvid : left.vid = right.vid) : left = right :=
  inj_on_of_nodup_map hvalid.vid hleft hright hvid

variable {row : Row page}

/-- Writing one entry for each row leaves a row's own entry at its VLAN. -/
theorem ValidRows.written_vid (hvalid : ValidRows lanIfname rows)
    (hrow : row ∈ rows) (value : Row page → Bytes)
    (array : Fin (page.maxVlanId + 1) → Bytes) :
    written (rows.map fun row => (row.vid, value row)) array row.vid =
      value row := by
  refine written_eq_of_forall (fun other hother => ?_)
    (.inl ⟨value row, mem_map.mpr ⟨row, hrow, rfl⟩⟩)
  obtain ⟨source, hsource, heq⟩ := mem_map.mp hother
  obtain ⟨hvid, rfl⟩ := Prod.mk.inj heq
  rw [hvalid.eq_of_vid hsource hrow hvid]

theorem vlanPorts_eq_nil {vid : Fin (page.maxVlanId + 1)}
    (hvid : vid ∉ rows.map Row.vid) :
    (saveRows internal rows).vlanPorts vid = [] := by
  rw [saveRows, vlanPorts_foldl_saveRow]
  refine written_eq_of_forall (fun other hother => ?_) (.inr rfl)
  obtain ⟨source, hsource, heq⟩ := mem_map.mp hother
  exact (hvid (mem_map.mpr ⟨source, hsource, (Prod.mk.inj heq).1⟩)).elim

/-! ## The bridges that are read back -/

theorem splitAtKey_vlanTag (row : Row page) :
    splitAtKey (bytes "vlan") (vlanTag row) = some ([], decimal row.vid) := by
  change splitAtKey (bytes "vlan")
    (118 :: 108 :: 97 :: 110 :: decimal row.vid) = _
  rw [splitAtKey, if_pos]
  · rfl
  · rw [ isPrefixOf_iff_prefix]
    exact prefix_append (bytes "vlan") _

theorem parseInt_dropVlan_vlanTag (row : Row page) :
    parseInt (dropVlan (vlanTag row)) = some (row.vid : ℤ) := by
  have hparse := parseInt_decimal row.vid []
    (fun char hchar => by cases hchar)
  rw [append_nil] at hparse
  rw [dropVlan, splitAtKey_vlanTag]
  exact hparse

theorem parseInt_dropVlan_nil : parseInt (dropVlan []) = none := by
  decide

theorem space_notMem_vlanTag (row : Row page) : 32 ∉ vlanTag row := by
  intro hmem
  rcases mem_append.mp hmem with hvlan | hdigit
  · exact absurd hvlan (by decide)
  · exact absurd (isDigit_of_mem_decimal _ _ hdigit) (by decide)

def bridgeEntry (row : Row page) : ℤ × Bridge page :=
  ((row.vid : ℤ), row.bridge)

theorem length_filter_le_one {p : Row page → Bool}
    (hcount : rows.countP p ≤ 1) :
    rows.filter p = [] ∨
      ∃ row ∈ rows, p row = true ∧ rows.filter p = [row] := by
  rw [countP_eq_length_filter] at hcount
  cases hfilter : rows.filter p with
  | nil => exact .inl rfl
  | cons row others =>
    have hmem := mem_filter.mp
      (hfilter ▸ mem_cons_self : row ∈ rows.filter p)
    rw [hfilter, length_cons] at hcount
    have hothers : others = [] := length_eq_zero_iff.mp (by omega)
    exact .inr ⟨row, hmem.1, hmem.2, by rw [hothers]⟩

variable (hvalid : ValidRows lanIfname rows)
include hvalid

theorem lanWrites_stored (lan : Fin (page.maxBridgeId + 1)) :
    lanWrites ((saveRows internal rows).stored lanIfname) lan =
      (rows.filter (·.bridge = .lan lan)).map bridgeEntry := by
  have htext : ((saveRows internal rows).stored lanIfname).lanIfnamesVlan lan =
      (rows.filter (·.bridge = .lan lan)).flatMap vlanTag :=
    foldl_saveRow_tags internal rows Fom.wiped (·.lanIfnamesVlan lan)
      fun fom row => congrFun
        (foldl_saveIfname_frame row _ (saveVlan internal fom row)).2.2.1 lan
  rw [lanWrites, htext]
  rcases length_filter_le_one (hvalid.lan lan) with hnone | ⟨row, hrow, hlan, hone⟩
  · rw [hnone]
    rfl
  have hbridge : row.bridge = .lan lan := of_decide_eq_true hlan
  have henabled : lanBridge ((saveRows internal rows).stored lanIfname) lan =
      .lan lan := if_pos (hvalid.enabled row hrow lan hbridge)
  have hwrite : lanWrite ((saveRows internal rows).stored lanIfname) lan
      (vlanTag row) = some (bridgeEntry row) := by
    rw [lanWrite, splitAtKey_vlanTag, Option.isSome_some, if_pos rfl,
      parseInt_dropVlan_vlanTag, henabled, bridgeEntry, hbridge]
    rfl
  rw [hone, flatMap_singleton, splitOn_eq_singleton (space_notMem_vlanTag row),
    filterMap_cons_some hwrite]
  rfl

theorem wanWrite_stored (wan : Fin page.maxwanNum) :
    (wanWrite ((saveRows internal rows).stored lanIfname) wan).toList =
      (rows.filter (·.bridge = .wan wan)).map bridgeEntry := by
  have htext : ((saveRows internal rows).stored lanIfname).wanIfnameXVlan wan =
      (rows.filter (·.bridge = .wan wan)).flatMap vlanTag :=
    foldl_saveRow_tags internal rows Fom.wiped (·.wanIfnameXVlan wan)
      fun fom row => congrFun
        (foldl_saveIfname_frame row _ (saveVlan internal fom row)).2.2.2.1 wan
  rw [wanWrite, htext]
  rcases length_filter_le_one (hvalid.wan wan) with hnone | ⟨row, -, hwan, hone⟩
  · rw [hnone, flatMap_nil, parseInt_dropVlan_nil]
    rfl
  · have hbridge : row.bridge = .wan wan := of_decide_eq_true hwan
    rw [hone, flatMap_singleton, parseInt_dropVlan_vlanTag, map_singleton,
      bridgeEntry, hbridge]
    rfl

theorem mem_bridgeWrites {entry : ℤ × Bridge page} :
    entry ∈ bridgeWrites ((saveRows internal rows).stored lanIfname) ↔
      ∃ row ∈ rows, row.bridge ≠ .none ∧ entry = bridgeEntry row := by
  have hwans : entry ∈ (finRange page.maxwanNum).filterMap
        (wanWrite ((saveRows internal rows).stored lanIfname)) ↔
      ∃ wan, entry ∈ (wanWrite ((saveRows internal rows).stored lanIfname)
        wan).toList := by
    simp [mem_filterMap]
  rw [bridgeWrites, mem_append, hwans]
  simp only [mem_flatMap, mem_finRange, true_and, lanWrites_stored hvalid,
    wanWrite_stored hvalid, mem_map, mem_filter, decide_eq_true_eq]
  constructor
  · rintro (⟨lan, row, ⟨hrow, hlan⟩, rfl⟩ | ⟨wan, row, ⟨hrow, hwan⟩, rfl⟩)
    · exact ⟨row, hrow, by simp [hlan], rfl⟩
    · exact ⟨row, hrow, by simp [hwan], rfl⟩
  rintro ⟨row, hrow, hne, rfl⟩
  cases hbridge : row.bridge with
  | none => exact (hne hbridge).elim
  | lan lan => exact .inl ⟨lan, row, ⟨hrow, hbridge⟩, rfl⟩
  | wan wan => exact .inr ⟨wan, row, ⟨hrow, hbridge⟩, rfl⟩

theorem bridged_stored (hrow : row ∈ rows) :
    bridged ((saveRows internal rows).stored lanIfname) row.vid =
      row.bridge := by
  refine written_eq_of_forall (fun other hother => ?_) ?_
  · obtain ⟨source, hsource, -, heq⟩ := (mem_bridgeWrites hvalid).mp hother
    obtain ⟨hvid, rfl⟩ := Prod.mk.inj heq
    have hvid : row.vid = source.vid := Fin.ext (by exact_mod_cast hvid)
    rw [hvalid.eq_of_vid hrow hsource hvid]
  · by_cases hnone : row.bridge = .none
    · exact .inr hnone.symm
    · exact .inl ⟨row.bridge,
        (mem_bridgeWrites hvalid).mpr ⟨row, hrow, hnone, rfl⟩⟩

omit hvalid

/-! ## The rows that are read back -/

theorem decimal_zero : decimal 0 = bytes "0" := by
  decide +kernel

theorem readVid_decimal {number : ℕ} (hnumber : number ≤ 4094)
    (hpos : number ≠ 0) : readVid engine (decimal number) = decimal number := by
  have hbound : number ≤ exactBound := hnumber.trans (by simp [exactBound])
  obtain ⟨first, others, hfirst, -⟩ := exists_decimal_eq_cons number
  refine if_pos ⟨by simp [hfirst], ?_, ?_⟩
  · rw [engine.ofText_decimal number hbound]
    exact engine.isNaN_ofNat number hbound
  · rw [engine.ofText_decimal number hbound,
      engine.ge_ofNat 0 (Nat.zero_le _) number hbound]
    exact decide_eq_false (by omega)

theorem readVid_saved
    (hmap : row.map = [] ∨ ∃ number ≤ 4094, row.map = decimal number) :
    readVid engine (if overrides row then row.map else []) =
      (shownRow row).map := by
  have hnil : readVid engine [] = bytes "0" := by
    simp [readVid]
  rcases hmap with hempty | ⟨number, hnumber, hdecimal⟩
  · simp [overrides, shownRow, hempty, hnil]
  obtain ⟨first, others, hfirst, -⟩ := exists_decimal_eq_cons number
  have hne : row.map ≠ [] := by simp [hdecimal, hfirst]
  have hshown : (shownRow row).map = row.map := if_neg hne
  rw [hshown]
  by_cases hzero : number = 0
  · have hplain : overrides row = false := by
      simp [overrides, hdecimal, hzero, decimal_zero]
    rw [hplain, if_neg (by decide), hnil, hdecimal, hzero, decimal_zero]
  have hmapped : overrides row = true := by
    have hother : decimal number ≠ bytes "0" := by
      rw [← decimal_zero]
      exact fun heq => hzero (decimal_injective heq)
    rw [← hdecimal] at hother
    simp only [overrides, Bool.and_eq_true, decide_eq_true_eq]
    exact ⟨hne, hother⟩
  rw [hmapped, if_pos rfl, hdecimal, readVid_decimal engine hnumber hzero]

/-- A row as it comes back: a column with the number of the internal port is
untagged. -/
def readBack (internal : InternalPort) (row : Row page) : Row page :=
  { shownRow row with
    port := fun index =>
      if page.portColName index = internal.number then .on
      else row.port index }

theorem readRow_of_mem (hvalid : ValidRows lanIfname rows) (hrow : row ∈ rows) :
    readRow engine ((saveRows internal rows).stored lanIfname) row.vid =
      some (readBack internal row) := by
  have hports : ((saveRows internal rows).stored lanIfname).vlanPorts row.vid =
      portsText internal row := by
    change (saveRows internal rows).vlanPorts row.vid = _
    rw [saveRows, vlanPorts_foldl_saveRow]
    exact hvalid.written_vid hrow (portsText internal) _
  have hmap : ((saveRows internal rows).stored lanIfname).vlanVid row.vid =
      if overrides row then row.map else [] := by
    change (saveRows internal rows).vlanVid row.vid = _
    rw [saveRows, foldl_saveRow_written internal rows _ Fom.vlanVid
      fun fom row =>
        (foldl_saveIfname_frame row _ (saveVlan internal fom row)).2.1]
    exact hvalid.written_vid hrow
      (fun row => if overrides row then row.map else []) _
  rw [readRow, if_pos (.inr (by rw [hports]; exact portsText_ne_nil _ _)), hmap,
    readVid_saved engine (hvalid.map row hrow), bridged_stored hvalid hrow,
    hports]
  simp only [portStates_portsText, star_mem_portsText, Bool.decide_eq_true]
  rfl

theorem readRow_of_notMem {vid : Fin (page.maxVlanId + 1)}
    (hvid : vid ∉ rows.map Row.vid) :
    readRow engine ((saveRows internal rows).stored lanIfname) vid = none := by
  refine if_neg (not_or.mpr ⟨not_not.mpr ?_, not_not.mpr ?_⟩)
  · exact vlanHwname_foldl_saveRow internal rows Fom.wiped hvid
  · exact vlanPorts_eq_nil hvid

/-- The rows come back in the order of their VLANs, each as `readBack` says. -/
theorem populate_perm (internal : InternalPort)
    (hvalid : ValidRows lanIfname rows) :
    (populate engine ((saveRows internal rows).stored lanIfname)
      internal).1.Perm (rows.map (readBack internal)) := by
  have hinj : ∀ left ∈ rows, ∀ right ∈ rows,
      readBack internal left = readBack internal right → left = right := by
    intro left hleft right hright heq
    have hvid : (readBack internal left).vid = (readBack internal right).vid := by
      rw [heq]
    exact hvalid.eq_of_vid hleft hright hvid
  have hrows : (rows.map (readBack internal)).Nodup :=
    (nodup_map_iff_inj_on (Nodup.of_map _ hvalid.vid)).mpr hinj
  have hread : ((finRange (page.maxVlanId + 1)).filterMap
      (readRow engine ((saveRows internal rows).stored lanIfname))).Nodup := by
    refine (nodup_finRange _).filterMap fun left right row hleft hright => ?_
    have hvid : ∀ vid, row ∈ readRow engine
        ((saveRows internal rows).stored lanIfname) vid → row.vid = vid := by
      intro vid hmem
      rw [Option.mem_def, readRow, Option.ite_none_right_eq_some] at hmem
      rw [← Option.some.inj hmem.2]
    rw [← hvid left hleft, ← hvid right hright]
  refine (perm_ext_iff_of_nodup hread hrows).mpr fun row => ?_
  rw [mem_filterMap, mem_map]
  constructor
  · rintro ⟨vid, -, hvid⟩
    by_cases hmem : vid ∈ rows.map Row.vid
    · obtain ⟨source, hsource, rfl⟩ := mem_map.mp hmem
      rw [readRow_of_mem engine hvalid hsource, Option.some.injEq] at hvid
      exact ⟨source, hsource, hvid⟩
    · rw [readRow_of_notMem engine hmem] at hvid
      cases hvid
  · rintro ⟨source, hsource, rfl⟩
    exact ⟨source.vid, mem_finRange _, readRow_of_mem engine hvalid hsource⟩

/-- The columns that share the number of the internal port are untagged in
every row. -/
def InternalApart (internal : InternalPort) (rows : List (Row page)) : Prop :=
  ∀ row ∈ rows, ∀ index, page.portColName index = internal.number →
    row.port index = .on

theorem readBack_eq_shownRow_iff :
    readBack internal row = shownRow row ↔
      ∀ index, page.portColName index = internal.number →
        row.port index = .on := by
  constructor
  · intro heq index hindex
    have hport := congrFun (congrArg Row.port heq) index
    simp only [readBack, if_pos hindex] at hport
    exact hport.symm
  · intro hon
    have hports : (fun index => if page.portColName index = internal.number
        then .on else row.port index) = row.port := by
      funext index
      by_cases hindex : page.portColName index = internal.number
      · rw [if_pos hindex, hon index hindex]
      · rw [if_neg hindex]
    rw [readBack, hports]
    rfl

end

/-- Reading the saved variables gives the grid again, with an empty VID shown
as 0, exactly when no column of a row that is off or tagged has the number of
the internal port. -/
theorem populate_saved_iff (engine : Engine) (internal : InternalPort)
    (lanIfname : Fin (page.maxBridgeId + 1) → Bytes) (rows : List (Row page))
    (hvalid : ValidRows lanIfname rows) :
    (populate engine ((saveRows internal rows).stored lanIfname)
        internal).1.Perm (rows.map shownRow) ↔
      InternalApart internal rows := by
  have hperm := populate_perm engine internal hvalid
  constructor
  · intro hround row hrow
    have hmem : readBack internal row ∈ rows.map shownRow :=
      (hperm.symm.trans hround).subset (mem_map_of_mem hrow)
    obtain ⟨source, hsource, heq⟩ := mem_map.mp hmem
    have hvid : (shownRow source).vid = (readBack internal row).vid := by
      rw [heq]
    rw [hvalid.eq_of_vid hsource hrow hvid] at heq
    exact readBack_eq_shownRow_iff.mp heq.symm
  · intro hapart
    have hmap : rows.map (readBack internal) = rows.map shownRow :=
      map_congr_left fun row hrow =>
        readBack_eq_shownRow_iff.mpr (hapart row hrow)
    rw [← hmap]
    exact hperm

/-- A router whose bridges are all enabled. -/
def allBridges : Fin (x86Page.maxBridgeId + 1) → Bytes :=
  fun lan => bytes "br" ++ [digitChar lan]

theorem defaultRows_valid : ValidRows allBridges defaultRows where
  vid := by decide
  wan := by decide
  lan := by decide
  native := by decide
  map := by
    intro row hrow
    refine .inr ⟨0, by decide, ?_⟩
    rw [decimal_zero]
    revert row
    decide
  enabled := by
    intro row _ lan _
    simp [allBridges]

theorem populate_saved_iff_default :
    (populate Engine.natural ((saveRows port9 defaultRows).stored allBridges)
      port9).1.Perm (defaultRows.map shownRow) := by
  refine (populate_saved_iff Engine.natural port9 allBridges defaultRows
    defaultRows_valid).mpr fun row _ index hindex => ?_
  have hnone : ∀ index, x86Page.portColName index ≠ port9.number := by decide
  exact (hnone index hindex).elim

/-- The internal port of a gigabit switch. -/
def port8 : InternalPort :=
  ⟨bytes "8", by decide, by decide⟩

/-- On a page that has read the internal port 8 from the default VLAN, the row
of the WAN comes back with port 8 as a member. -/
theorem populate_saved_port8 :
    (internalPort (bytes "1 2 3 4 8*")).map InternalPort.text =
        some port8.text ∧
      ValidRows allBridges defaultRows ∧
      ¬ (populate Engine.natural ((saveRows port8 defaultRows).stored allBridges)
        port8).1.Perm (defaultRows.map shownRow) := by
  refine ⟨by decide, defaultRows_valid, fun hround => ?_⟩
  have hperm := populate_perm Engine.natural port8 defaultRows_valid
  have hsubset := (hperm.symm.trans hround).subset
  have hread : ¬ defaultRows.map (readBack port8) ⊆
      defaultRows.map shownRow := by
    decide
  exact hread hsubset

end Tomato64.VlanGrid
