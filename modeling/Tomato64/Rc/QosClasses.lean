import Mathlib.Data.Int.ModEq
import Mathlib.Data.List.MinMax
import Tomato64.Rc.Qos

/-!
# Where the packets of a class go

The root of HTB asks its filters in the order of their priorities.  The first
one that takes the packet names the class; without such a filter, or without
this class, the packet goes to the default class.

The numbers of classes and filters are computed from the place in the list of
all WANs, while the marks carry the class within the WAN.
-/

namespace Tomato64.Qos

open List Scan Shared Text

/-- What the filters look at in a packet. -/
structure Packet where
  ipv6 : Bool
  mark : BitVec 32
  header : ℕ → Byte

def FilterTest.holds (packet : Packet) : FilterTest → Bool
  | .mark handle mask => packet.mark &&& mask = handle
  | .header tests =>
    tests.all fun test =>
      packet.header test.position &&& test.mask = test.value

def Filter.takes (packet : Packet) (filter : Filter) : Bool :=
  filter.ipv6 = packet.ipv6 && filter.test.holds packet

/-- The filter that decides: the one of lowest priority number. -/
def Htb.chosen (tree : Htb) (packet : Packet) : Option Filter :=
  (tree.filters.filter (Filter.takes packet)).argmin Filter.prio

def Htb.classWith (tree : Htb) (classid : ℕ) : Option TcClass :=
  tree.classes.find? fun tcClass => tcClass.classid = classid

/-- The class that a packet goes to, or nothing if it is sent directly. -/
def Htb.classify (tree : Htb) (packet : Packet) : Option TcClass :=
  ((tree.chosen packet).bind fun filter => tree.classWith filter.flowid).or
    (tree.classWith tree.defaultId)

/-! ## Places of the list -/

/-- The place of a class from 1 to 10 of a WAN. -/
def placeOf (unit number : ℕ) : ℕ :=
  (unit - 1) * 10 + (number - 1)

variable (nvram : Nvram)

def Filled (direction : Direction) (index : ℕ) : Prop :=
  inUse nvram (index % classesNum) = true ∧
    (rateAt nvram direction index).isSome = true

/-- The place that `qos_default` names; the class number wraps around. -/
def defaultPlace : ℕ :=
  (nvram.int (bytes "qos_default") % 2 ^ 31).toNat

/-- The default class is one of the classes of the WAN. -/
def DefaultFilled (direction : Direction) (unit : ℕ) : Prop :=
  (unit - 1) * 10 ≤ defaultPlace nvram ∧ defaultPlace nvram < unit * 10 ∧
    Filled nvram direction (defaultPlace nvram)

def Prioritized (packet : Packet) : Prop :=
  ∃ filter ∈ optionFilters nvram, filter.takes packet = true

variable {index : ℕ}

theorem mem_built {nvram : Nvram} {direction : Direction} {unit : ℕ}
    {entry : ℕ × ℕ} :
    (index, entry) ∈ built nvram direction (Globals.ofUnit unit) ↔
      (unit - 1) * 10 ≤ index ∧ index < unit * 10 ∧
        inUse nvram (index % classesNum) = true ∧
        rateAt nvram direction index = some entry := by
  rw [built, mem_filterMap]
  constructor
  · rintro ⟨place, hplace, hsome⟩
    have hhigh : place < 10 * unit := mem_range.mp hplace
    split_ifs at hsome with hskip
    rw [Option.map_eq_some_iff] at hsome
    obtain ⟨rates, hrates, hpair⟩ := hsome
    rw [Prod.mk.injEq] at hpair
    obtain ⟨rfl, rfl⟩ := hpair
    rw [not_or, not_not] at hskip
    exact ⟨Nat.le_of_not_lt hskip.1, by omega, hskip.2, hrates⟩
  · rintro ⟨hlow, hhigh, hused, hrates⟩
    have hkept : ¬ (index < (Globals.ofUnit unit).qosRateStartIndex ∨
        ¬ inUse nvram (index % classesNum) = true) := by
      rw [not_or, not_not]
      exact ⟨Nat.not_lt.mpr hlow, hused⟩
    have hrange : index < 10 * unit := by omega
    refine ⟨index, mem_range.mpr hrange, ?_⟩
    rw [if_neg hkept, hrates]
    rfl

/-! ## Classes -/

section
variable {nvram : Nvram} {direction : Direction} {unit : ℕ} {tree : Htb}

/-- A tree has the classes of a WAN and, apart from those of the options, the
filters for their places. -/
structure IsTree (nvram : Nvram) (direction : Direction) (unit : ℕ)
    (tree : Htb) : Prop where
  defaultId : tree.defaultId = qosDefaultClassId nvram
  classes : tree.classes = (built nvram direction (Globals.ofUnit unit)).map
    fun place => classFor direction
      (bandwidth nvram (getWanPrefix unit) direction) place.1 place.2
  filters : ∀ filter, filter ∈ tree.filters ↔
    (∃ place ∈ built nvram direction (Globals.ofUnit unit),
      filter ∈ markFilters place.1) ∨
      (direction = .outgoing ∧ filter ∈ optionFilters nvram)

theorem isTree_of_htb (htree : htb nvram (getWanPrefix unit)
    (Globals.ofUnit unit) direction = some tree) :
    IsTree nvram direction unit tree := by
  unfold htb at htree
  cases direction with
  | outgoing =>
    obtain rfl := Option.some.inj htree
    refine ⟨rfl, rfl, fun filter => ?_⟩
    rw [mem_append, mem_flatMap, and_iff_right rfl]
  | incoming =>
    dsimp only at htree
    split_ifs at htree
    obtain rfl := Option.some.inj htree
    refine ⟨rfl, rfl, fun filter => ?_⟩
    rw [mem_flatMap]
    simp

/-- The class of a place, and no other one, has its number. -/
theorem IsTree.classWith_eq_iff (htree : IsTree nvram direction unit tree)
    {entry : ℕ × ℕ} {classid : ℕ}
    (hplace : (index, entry) ∈ built nvram direction (Globals.ofUnit unit)) :
    tree.classWith classid = some (classFor direction
      (bandwidth nvram (getWanPrefix unit) direction) index entry) ↔
      (index + 1) * 10 = classid := by
  refine ⟨fun hfind => ?_, ?_⟩
  · have hid := find?_some hfind
    exact of_decide_eq_true hid
  rintro rfl
  have hmem : classFor direction
      (bandwidth nvram (getWanPrefix unit) direction) index entry ∈
      tree.classes := by
    rw [htree.classes]
    exact mem_map.mpr ⟨(index, entry), hplace, rfl⟩
  cases hfind : tree.classWith ((index + 1) * 10) with
  | none =>
    have hnone := find?_eq_none.mp hfind _ hmem
    exact absurd (decide_eq_true rfl) hnone
  | some found =>
    have hid := find?_some hfind
    have hfound := mem_of_find?_eq_some hfind
    rw [htree.classes, mem_map] at hfound
    obtain ⟨⟨other, rates⟩, hother, rfl⟩ := hfound
    rw [decide_eq_true_eq] at hid
    obtain rfl : other = index := by
      change (other + 1) * 10 = (index + 1) * 10 at hid
      omega
    have hentry := (mem_built.mp hplace).2.2.2
    rw [(mem_built.mp hother).2.2.2, Option.some.injEq] at hentry
    rw [hentry]

/-- The numbers that have a class are those of the filled places. -/
theorem IsTree.isSome_classWith_iff (htree : IsTree nvram direction unit tree)
    {classid : ℕ} :
    (tree.classWith classid).isSome = true ↔
      ∃ index, (index + 1) * 10 = classid ∧ (unit - 1) * 10 ≤ index ∧
        index < unit * 10 ∧ Filled nvram direction index := by
  rw [Htb.classWith, find?_isSome, htree.classes]
  constructor
  · rintro ⟨found, hfound, hid⟩
    obtain ⟨⟨index, entry⟩, hplace, rfl⟩ := mem_map.mp hfound
    obtain ⟨hlow, hhigh, hused, hrates⟩ := mem_built.mp hplace
    exact ⟨index, of_decide_eq_true hid, hlow, hhigh, hused,
      Option.isSome_of_mem hrates⟩
  · rintro ⟨index, hid, hlow, hhigh, hused, hsome⟩
    obtain ⟨entry, hrates⟩ := Option.isSome_iff_exists.mp hsome
    have hplace := mem_built.mpr ⟨hlow, hhigh, hused, hrates⟩
    exact ⟨_, mem_map.mpr ⟨_, hplace, rfl⟩, decide_eq_true hid⟩

end

/-- The number of a class in the arithmetic of `unsigned int`. -/
theorem classid_wrap_iff {value : ℤ} (hindex : index < 40) :
    (value + 1) * 10 % 2 ^ 32 = (index + 1) * 10 ↔ value % 2 ^ 31 = index := by
  have hsmall : (index : ℤ) % 2 ^ 31 = index :=
    Int.emod_eq_of_lt (by omega) (by omega)
  have hten : ((index : ℤ) + 1) * 10 % 2 ^ 32 = (index + 1) * 10 :=
    Int.emod_eq_of_lt (by omega) (by omega)
  constructor
  · intro hsame
    have hmod : (value + 1) * 10 ≡ (index + 1) * 10 [ZMOD 2 ^ 32] :=
      hsame.trans hten.symm
    have hcancel := Int.ModEq.cancel_right_div_gcd (by decide) hmod
    have hrest : value ≡ index [ZMOD 2 ^ 31] :=
      Int.ModEq.add_right_cancel' 1 hcancel
    exact Eq.trans hrest hsmall
  · intro hsame
    have hmod : value ≡ index [ZMOD 2 ^ 31] := hsame.trans hsmall.symm
    have hwrap : (value + 1) * 10 ≡ (index + 1) * 10 [ZMOD 2 ^ 31 * 10] :=
      (hmod.add_right 1).mul_right'
    exact Eq.trans (hwrap.of_dvd (by decide : (2 ^ 32 : ℤ) ∣ 2 ^ 31 * 10)) hten

/-- The number of the default class belongs to the place that `qos_default`
names. -/
theorem qosDefaultClassId_eq_iff {nvram : Nvram} (hindex : index < 40) :
    (index + 1) * 10 = qosDefaultClassId nvram ↔
      index = defaultPlace nvram := by
  have hid := Int.emod_nonneg
    ((nvram.int (bytes "qos_default") + 1) * 10)
    (by decide : (2 ^ 32 : ℤ) ≠ 0)
  have hplace := Int.emod_nonneg (nvram.int (bytes "qos_default"))
    (by decide : (2 ^ 31 : ℤ) ≠ 0)
  rw [qosDefaultClassId, toUnsigned, defaultPlace, ← @Nat.cast_inj ℤ,
    Int.toNat_of_nonneg hid, ← @Nat.cast_inj ℤ,
    Int.toNat_of_nonneg hplace, eq_comm, Nat.cast_mul, Nat.cast_add,
    Nat.cast_one, Nat.cast_ofNat, classid_wrap_iff hindex, eq_comm]

/-! ## Filters -/

variable {filter : Filter}

theorem mem_markFilters :
    filter ∈ markFilters index ↔
      filter.prio = (index + 1) * 10 + (if filter.ipv6 then 100 else 0) ∧
        filter.test = .mark (BitVec.ofNat 32 (index + 1)) 0xf#32 ∧
        filter.flowid = (index + 1) * 10 := by
  obtain ⟨prio, ipv6, test, flowid⟩ := filter
  rw [markFilters]
  simp only [mem_cons, not_mem_nil, or_false, Filter.mk.injEq]
  cases ipv6 with
  | false =>
    simp only [Bool.false_eq_true, true_and, false_and, and_false, or_false,
      if_false, Nat.add_zero]
  | true =>
    simp only [Bool.true_eq_false, true_and, false_and, and_false, false_or,
      if_true]

/-- The filters of a place take the packets whose mark carries its number. -/
theorem takes_markFilter (hindex : index < 40)
    (hfilter : filter ∈ markFilters index) (packet : Packet) :
    filter.takes packet = true ↔ filter.ipv6 = packet.ipv6 ∧
      (packet.mark &&& 0xf#32).toNat = index + 1 := by
  rw [Filter.takes, (mem_markFilters.mp hfilter).2.1, FilterTest.holds,
    Bool.and_eq_true, decide_eq_true_eq, decide_eq_true_eq,
    ← BitVec.toNat_inj, BitVec.toNat_ofNat, Nat.mod_eq_of_lt (by omega)]

theorem mem_optionFilters {nvram : Nvram}
    (hfilter : filter ∈ optionFilters nvram) :
    filter.ipv6 = false ∧ 13 ≤ filter.prio ∧ filter.prio ≤ 19 ∧
      filter.flowid = 10 := by
  have hone {name : String} {prio : ℕ} {test : FilterTest}
      (hprio : 13 ≤ prio ∧ prio ≤ 19)
      (hmem : filter ∈ if nvram.int (bytes name) ≠ 0 then
        [(⟨prio, false, test, 10⟩ : Filter)] else []) :
      filter.ipv6 = false ∧ 13 ≤ filter.prio ∧ filter.prio ≤ 19 ∧
        filter.flowid = 10 := by
    split_ifs at hmem
    · rw [mem_singleton.mp hmem]
      exact ⟨rfl, hprio.1, hprio.2, rfl⟩
    · cases hmem
  simp only [optionFilters, mem_append] at hfilter
  rcases hfilter with (((hack | hsyn) | hfin) | hrst) | hicmp
  · exact hone (by decide) hack
  · exact hone (by decide) hsyn
  · exact hone (by decide) hfin
  · exact hone (by decide) hrst
  · exact hone (by decide) hicmp

/-! ## The filter that decides -/

section
variable {tree : Htb} {packet : Packet}

theorem Htb.mem_of_chosen (hchosen : tree.chosen packet = some filter) :
    filter ∈ tree.filters ∧ filter.takes packet = true ∧
      ∀ other ∈ tree.filters, other.takes packet = true →
        filter.prio ≤ other.prio := by
  have hmem := mem_filter.mp (argmin_mem hchosen)
  refine ⟨hmem.1, hmem.2, fun other hother htakes => ?_⟩
  exact le_of_mem_argmin (mem_filter.mpr ⟨hother, htakes⟩) hchosen

theorem Htb.exists_chosen (hfilter : filter ∈ tree.filters)
    (htakes : filter.takes packet = true) :
    ∃ first, tree.chosen packet = some first := by
  cases hchosen : tree.chosen packet with
  | some first => exact ⟨first, rfl⟩
  | none =>
    have hnone := argmin_eq_none.mp hchosen
    have hmem := mem_filter.mpr ⟨hfilter, htakes⟩
    rw [hnone] at hmem
    cases hmem

end

/-! ## Where a packet goes -/

section
variable {nvram : Nvram} {direction : Direction} {unit number : ℕ}
variable {tree : Htb} {packet : Packet} {entry : ℕ × ℕ}

/-- The default class exists exactly when its place is filled. -/
theorem IsTree.isSome_default_iff (htree : IsTree nvram direction unit tree)
    (hunit : unit ≤ 4) :
    (tree.classWith tree.defaultId).isSome = true ↔
      DefaultFilled nvram direction unit := by
  rw [htree.defaultId, htree.isSome_classWith_iff]
  constructor
  · rintro ⟨index, hid, hlow, hhigh, hfilled⟩
    obtain rfl := (qosDefaultClassId_eq_iff (by omega)).mp hid
    exact ⟨hlow, hhigh, hfilled⟩
  · rintro ⟨hlow, hhigh, hfilled⟩
    exact ⟨_, (qosDefaultClassId_eq_iff (by omega)).mpr rfl, hlow, hhigh,
      hfilled⟩

/-- A filter for a mark that takes a packet belongs to the place of its class
on the first WAN. -/
theorem index_of_takes (hindex : index < 40)
    (hfilter : filter ∈ markFilters index)
    (hmark : (packet.mark &&& 0xf#32).toNat = number)
    (htakes : filter.takes packet = true) : index + 1 = number := by
  rw [← hmark]
  exact ((takes_markFilter hindex hfilter packet).mp htakes).2.symm

/-- On the first WAN a packet that no option takes goes to its class. -/
theorem IsTree.classify_first (htree : IsTree nvram direction 1 tree)
    (hnumber : 1 ≤ number ∧ number ≤ 10)
    (hmark : (packet.mark &&& 0xf#32).toNat = number)
    (hplace : (number - 1, entry) ∈
      built nvram direction (Globals.ofUnit 1))
    (hplain : direction = .outgoing →
      number = 1 ∨ ¬ Prioritized nvram packet) :
    tree.classify packet = some (classFor direction
      (bandwidth nvram (getWanPrefix (1 : ℕ)) direction) (number - 1)
      entry) := by
  obtain ⟨own, hown, hipv6⟩ : ∃ own ∈ markFilters (number - 1),
      own.ipv6 = packet.ipv6 := by
    cases packet.ipv6 with
    | false => exact ⟨_, mem_cons_self, rfl⟩
    | true => exact ⟨_, mem_cons_of_mem _ mem_cons_self, rfl⟩
  have hownMem : own ∈ tree.filters :=
    (htree.filters own).mpr (.inl ⟨_, hplace, hown⟩)
  have hownTakes : own.takes packet = true :=
    (takes_markFilter (by omega) hown packet).mpr ⟨hipv6, by omega⟩
  obtain ⟨first, hchosen⟩ := Htb.exists_chosen hownMem hownTakes
  obtain ⟨hfirst, htakes, hleast⟩ := Htb.mem_of_chosen hchosen
  have hflowid : first.flowid = (number - 1 + 1) * 10 := by
    rcases (htree.filters first).mp hfirst with
      ⟨⟨index, rates⟩, hbuilt, hmem⟩ | ⟨houtgoing, hoption⟩
    · have hhigh := (mem_built.mp hbuilt).2.1
      have hindex := index_of_takes (by omega) hmem hmark htakes
      rw [(mem_markFilters.mp hmem).2.2]
      omega
    · -- Only the filter for class 1 comes before those of the options.
      have hone : number = 1 :=
        (hplain houtgoing).resolve_right (not_not.mpr ⟨first, hoption, htakes⟩)
      obtain ⟨hipv4, hlow, -, -⟩ := mem_optionFilters hoption
      have hless := hleast own hownMem hownTakes
      rw [Filter.takes, Bool.and_eq_true, decide_eq_true_eq] at htakes
      rw [(mem_markFilters.mp hown).1, hipv6, ← htakes.1, hipv4] at hless
      simp [hone] at hless
      omega
  rw [Htb.classify, hchosen, Option.bind_some, hflowid,
    (htree.classWith_eq_iff hplace).mpr rfl]
  rfl

/-- A packet that an option takes goes to class 1 or to the default class. -/
theorem IsTree.classify_prioritized (htree : IsTree nvram .outgoing 1 tree)
    (hnumber : 1 < number) (hmark : (packet.mark &&& 0xf#32).toNat = number)
    (hprioritized : Prioritized nvram packet) :
    tree.classify packet =
      (tree.classWith 10).or (tree.classWith tree.defaultId) := by
  obtain ⟨option, hoption, htakes⟩ := hprioritized
  have hmem : option ∈ tree.filters :=
    (htree.filters option).mpr (.inr ⟨rfl, hoption⟩)
  obtain ⟨first, hchosen⟩ := Htb.exists_chosen hmem htakes
  obtain ⟨hfirst, hfirstTakes, hleast⟩ := Htb.mem_of_chosen hchosen
  have hflowid : first.flowid = 10 := by
    rcases (htree.filters first).mp hfirst with
      ⟨⟨index, rates⟩, hbuilt, hmark'⟩ | ⟨-, hother⟩
    · have hhigh := (mem_built.mp hbuilt).2.1
      have hindex := index_of_takes (by omega) hmark' hmark hfirstTakes
      have hless := hleast option hmem htakes
      have hprio := (mem_optionFilters hoption).2.2.1
      have hown := (mem_markFilters.mp hmark').1
      omega
    · exact (mem_optionFilters hother).2.2.2
  rw [Htb.classify, hchosen, Option.bind_some, hflowid]

/-- On the other WANs no filter leads to a class. -/
theorem IsTree.classify_other (htree : IsTree nvram direction unit tree)
    (hunit : 1 < unit ∧ unit ≤ 4) (hnumber : number ≤ 10)
    (hmark : (packet.mark &&& 0xf#32).toNat = number) :
    tree.classify packet = tree.classWith tree.defaultId := by
  rw [Htb.classify]
  cases hchosen : tree.chosen packet with
  | none => rfl
  | some first =>
    obtain ⟨hfirst, htakes, -⟩ := Htb.mem_of_chosen hchosen
    have hnone : tree.classWith first.flowid = none := by
      rw [← Option.not_isSome_iff_eq_none, htree.isSome_classWith_iff]
      rintro ⟨place, hid, hlow, -⟩
      rcases (htree.filters first).mp hfirst with
        ⟨⟨index, _⟩, hbuilt, hmem⟩ | ⟨-, hoption⟩
      · obtain ⟨hstart, hhigh, -⟩ := mem_built.mp hbuilt
        have hindex := index_of_takes (by omega) hmem hmark htakes
        rw [(mem_markFilters.mp hmem).2.2] at hid
        omega
      · rw [(mem_optionFilters hoption).2.2.2] at hid
        omega
    rw [Option.bind_some, hnone]
    rfl

end

/-- The script of a WAN sends a packet of a class to the class that is built
from the WAN's own rates for it, and its default class is one of those built. -/
def Delivered (globals : Globals) (direction : Direction)
    (unit number : ℕ) (entry : ℕ × ℕ) (packet : Packet) : Prop :=
  ∃ tree, (scriptFor nvram (getWanPrefix unit)
      (prepQosstr (getWanPrefix unit) globals)).htb direction = some tree ∧
    tree.classify packet = some (classFor direction
      (bandwidth nvram (getWanPrefix unit) direction) (placeOf unit number)
      entry) ∧
    (tree.classWith tree.defaultId).isSome = true

section
variable {nvram : Nvram} {direction : Direction} {unit number : ℕ}
variable {tree : Htb} {packet : Packet} {entry : ℕ × ℕ}

/-- With a class to build, the script has a tree. -/
theorem exists_tree (hunit : 1 ≤ unit ∧ unit ≤ 4) (globals : Globals)
    (hmode : nvram.int (bytes "qos_mode") ≠ 2)
    (hplace : (index, entry) ∈ built nvram direction (Globals.ofUnit unit)) :
    ∃ tree, (scriptFor nvram (getWanPrefix unit)
        (prepQosstr (getWanPrefix unit) globals)).htb direction = some tree ∧
      IsTree nvram direction unit tree := by
  have hscript : (scriptFor nvram (getWanPrefix unit)
      (prepQosstr (getWanPrefix unit) globals)).htb direction =
      htb nvram (getWanPrefix unit) (Globals.ofUnit unit) direction := by
    rw [prepQosstr_getWanPrefix hunit]
    cases direction with
    | outgoing => exact if_neg hmode
    | incoming => exact if_neg hmode
  obtain ⟨tree, htree⟩ : ∃ tree, htb nvram (getWanPrefix unit)
      (Globals.ofUnit unit) direction = some tree := by
    cases direction with
    | outgoing => exact ⟨_, rfl⟩
    | incoming => exact ⟨_, if_neg (ne_nil_of_mem hplace)⟩
  exact ⟨tree, hscript.trans htree, isTree_of_htb htree⟩

/-- When the default class decides, the packet reaches its own class exactly
when this is the default class. -/
theorem IsTree.reaches_default_iff (htree : IsTree nvram direction unit tree)
    (hunit : unit ≤ 4)
    (hplace : (index, entry) ∈ built nvram direction (Globals.ofUnit unit)) :
    tree.classWith tree.defaultId = some (classFor direction
        (bandwidth nvram (getWanPrefix unit) direction) index entry) ∧
      (tree.classWith tree.defaultId).isSome = true ↔
      DefaultFilled nvram direction unit ∧ defaultPlace nvram = index := by
  have hhigh := (mem_built.mp hplace).2.1
  rw [htree.isSome_default_iff hunit, and_comm, htree.classWith_eq_iff hplace,
    htree.defaultId, qosDefaultClassId_eq_iff (by omega), eq_comm]

/-- The class 1:10 exists exactly when the first place is filled. -/
theorem IsTree.isSome_ten_iff (htree : IsTree nvram direction 1 tree) :
    (tree.classWith 10).isSome = true ↔ Filled nvram direction 0 := by
  rw [htree.isSome_classWith_iff]
  constructor
  · rintro ⟨index, hid, -, -, hfilled⟩
    obtain rfl : index = 0 := by omega
    exact hfilled
  · intro hfilled
    exact ⟨0, rfl, le_rfl, by decide, hfilled⟩

end

/-- A packet of a class that is in use with a rate is delivered exactly when the
default class of the WAN is in use with a rate and either the WAN is the first
one and no option takes the packet before, or the packet's class is the default
class itself and class 1:10 does not take it before. -/
theorem delivered_iff (nvram : Nvram) (globals : Globals)
    (direction : Direction) (unit number : ℕ) (entry : ℕ × ℕ) (packet : Packet)
    (hunit : 1 ≤ unit ∧ unit ≤ 4) (hnumber : 1 ≤ number ∧ number ≤ 10)
    (hmode : nvram.int (bytes "qos_mode") ≠ 2)
    (hmark : (packet.mark &&& 0xf#32).toNat = number)
    (hused : inUse nvram (number - 1) = true)
    (hrate : rateAt nvram direction (placeOf unit number) = some entry) :
    Delivered nvram globals direction unit number entry packet ↔
      DefaultFilled nvram direction unit ∧
        (unit = 1 ∧ (direction = .outgoing →
            number = 1 ∨ ¬ Prioritized nvram packet) ∨
          defaultPlace nvram = placeOf unit number ∧
            (unit = 1 → ¬ Filled nvram direction 0)) := by
  have hplace : (placeOf unit number, entry) ∈
      built nvram direction (Globals.ofUnit unit) := by
    have hclass : placeOf unit number % classesNum = number - 1 := by
      rw [placeOf, classesNum]
      omega
    refine mem_built.mpr ⟨?_, ?_, hclass ▸ hused, hrate⟩
    · rw [placeOf]
      omega
    · rw [placeOf]
      omega
  obtain ⟨tree, hscript, htree⟩ := exists_tree hunit globals hmode hplace
  have hdelivered : Delivered nvram globals direction unit number entry packet ↔
      tree.classify packet = some (classFor direction
        (bandwidth nvram (getWanPrefix unit) direction) (placeOf unit number)
        entry) ∧ (tree.classWith tree.defaultId).isSome = true := by
    rw [Delivered, hscript]
    simp only [Option.some.injEq, exists_eq_left']
  rw [hdelivered]
  by_cases hfirst : unit = 1
  · subst hfirst
    have hfirstPlace : placeOf 1 number = number - 1 := by
      rw [placeOf]
      omega
    by_cases hplain : direction = .outgoing →
        number = 1 ∨ ¬ Prioritized nvram packet
    · rw [hfirstPlace] at hplace ⊢
      rw [htree.classify_first hnumber hmark hplace hplain,
        htree.isSome_default_iff hunit.2, and_iff_right rfl,
        and_iff_left (.inl ⟨rfl, hplain⟩)]
    simp only [Classical.not_imp, not_or, not_not] at hplain
    obtain ⟨rfl, hnotOne, hprioritized⟩ := hplain
    rw [htree.classify_prioritized (by omega) hmark hprioritized]
    cases hclass : tree.classWith 10 with
    | some ten =>
      have hfilled := htree.isSome_ten_iff.mp (by rw [hclass]; rfl)
      rw [Option.some_or, ← hclass, htree.classWith_eq_iff hplace]
      refine iff_of_false (fun hboth => by omega) ?_
      rintro ⟨-, ⟨-, hplain⟩ | ⟨-, hempty⟩⟩
      · exact (hplain rfl).elim hnotOne fun hnot => hnot hprioritized
      · exact hempty rfl hfilled
    | none =>
      have hempty : ¬ Filled nvram .outgoing 0 := by
        rw [← htree.isSome_ten_iff, hclass]
        exact Bool.false_ne_true
      rw [Option.none_or, htree.reaches_default_iff hunit.2 hplace]
      refine and_congr_right fun _ => ?_
      constructor
      · intro hsame
        exact .inr ⟨hsame, fun _ => hempty⟩
      · rintro (⟨-, hplain⟩ | ⟨hsame, -⟩)
        · exact (hplain rfl).elim (absurd · hnotOne)
            (absurd hprioritized)
        · exact hsame
  · rw [htree.classify_other (by omega) hnumber.2 hmark,
      htree.reaches_default_iff hunit.2 hplace]
    refine and_congr_right fun _ => ?_
    constructor
    · intro hsame
      exact .inr ⟨hsame, fun hone => absurd hone hfirst⟩
    · rintro (⟨hone, -⟩ | ⟨hsame, -⟩)
      · exact absurd hone hfirst
      · exact hsame

/-- Two classes with rates on each of two WANs, and class 2 as the default. -/
def twoClasses (key : Bytes) : Bytes :=
  if key = bytes "qos_enable" ∨ key = bytes "qos_classify" ∨
      key = bytes "qos_default" then bytes "1"
  else if key = bytes "qos_inuse" then bytes "3"
  else if key = bytes "qos_orates" ∨ key = bytes "qos_irates" then
    bytes ("5-100,10-80,0-0,0-0,0-0,0-0,0-0,0-0,0-0,0-0," ++
      "20-90,30-70,0-0,0-0,0-0,0-0,0-0,0-0,0-0,0-0")
  else if key = bytes "wan_qos_obw" ∨ key = bytes "wan2_qos_obw" then
    bytes "1000"
  else []

def secondClass : Packet :=
  ⟨false, 2#32, fun _ => 0⟩

theorem delivered_iff_firstWan :
    Delivered twoClasses Globals.initial .outgoing 1 2 (10, 80)
      secondClass := by
  refine (delivered_iff twoClasses Globals.initial .outgoing 1 2 (10, 80)
    secondClass (by decide) (by decide) (by decide) (by decide)
    (by decide) (by decide)).mpr ⟨?_, .inl ⟨rfl, ?_⟩⟩
  · unfold DefaultFilled Filled
    decide
  · refine fun _ => .inr ?_
    unfold Prioritized
    decide

/-- On the second WAN no filter takes the packet, and the default class is
missing. -/
theorem not_delivered_secondWan :
    inUse twoClasses 1 = true ∧
      rateAt twoClasses .outgoing (placeOf 2 2) = some (30, 70) ∧
      ¬ Delivered twoClasses Globals.initial .outgoing 2 2 (30, 70)
        secondClass := by
  refine ⟨by decide, by decide, ?_⟩
  rintro ⟨tree, htree, -, hdefault⟩
  have hmissing : ((scriptFor twoClasses (getWanPrefix (2 : ℕ))
      (prepQosstr (getWanPrefix (2 : ℕ)) Globals.initial)).htb
        .outgoing).all (fun tree =>
          (tree.classWith tree.defaultId).isNone) = true := by
    decide +kernel
  rw [htree, Option.all_some, Option.isNone_iff_eq_none] at hmissing
  rw [hmissing] at hdefault
  cases hdefault

end Tomato64.Qos
