import Mathlib.Data.List.Basic
import Tomato64.Core.Run
import Tomato64.Core.Scan
import Tomato64.Core.Split
import Tomato64.Shared.Misc

/-!
# The scripts of QoS

`start_qos` writes a shell script for a WAN and runs it with `start`;
`stop_qos` runs it with `stop`.  The script sets up a tree of HTB classes on the
device of the WAN, for what is sent, and one on an IFB device, for what is
received, with filters that look at the mark of a packet.

The rates of all WANs stand in one list, ten for each WAN.
-/

namespace Tomato64.Qos

open Text Scan Shared Run

/-- The variables of the file that `prep_qosstr` sets. -/
structure Globals where
  qosfn : Bytes
  qosdev : Bytes
  qosWanNum : ℕ
  qosRateStartIndex : ℕ
deriving DecidableEq

def Globals.initial : Globals :=
  ⟨bytes "/etc/wanX_qos", bytes "iXXX", 0, 0⟩

/-- What `prep_qosstr` sets for a WAN, with the sizes of `buf`, `qosfn` and
`qosdev`. -/
def Globals.ofUnit (unit : ℕ) : Globals :=
  let name :=
    if unit = 1 then bytes "/etc/wan_qos"
    else bytes "/etc/wan" ++ decimal unit ++ bytes "_qos"
  let device := bytes "ifb" ++ decimal (unit - 1)
  { qosfn := (name.take 7).take 13
    qosdev := (device.take 7).take 4
    qosWanNum := unit
    qosRateStartIndex := (unit - 1) * 10 }

def prepQosstr (wanPrefix : Bytes) (globals : Globals) : Globals :=
  (List.range 4).foldl
    (fun globals index =>
      if wanPrefix = (getWanPrefix ((index + 1 : ℕ) : ℤ)).take 7 then
        Globals.ofUnit (index + 1)
      else globals) globals

theorem getWanPrefix_eq_take_iff : ∀ unit < 5, ∀ index < 4, 1 ≤ unit →
    (getWanPrefix (unit : ℕ) = (getWanPrefix ((index + 1 : ℕ) : ℤ)).take 7 ↔
      index + 1 = unit) := by
  decide +kernel

theorem prepQosstr_getWanPrefix {unit : ℕ} (hunit : 1 ≤ unit ∧ unit ≤ 4)
    (globals : Globals) :
    prepQosstr (getWanPrefix unit) globals = Globals.ofUnit unit := by
  refine foldl_range_induction _ 4
    (fun count globals => unit ≤ count → globals = Globals.ofUnit unit)
    (fun hzero => absurd hzero (by omega)) ?_ hunit.2
  intro index globals hindex hglobals hle
  split_ifs with hsame
  · rw [getWanPrefix_eq_take_iff unit (by omega) index hindex hunit.1] at hsame
    rw [hsame]
  · rw [getWanPrefix_eq_take_iff unit (by omega) index hindex hunit.1] at hsame
    exact hglobals (by omega)

/-! ## Rates -/

def classesNum : ℕ := 10

def ratePart : Bytes :=
  bytes "5-100,0-0,0-0,0-0,0-0,0-0,0-0,0-0,0-0,0-0,"

/-- `build_disabled_classification_rates`, without the last comma. -/
def buildDisabledClassificationRates (mwanCount : ℕ) : Bytes :=
  (List.replicate mwanCount ratePart).flatten.dropLast

/-- The two trees of a script. -/
inductive Direction where
  | outgoing
  | incoming
deriving DecidableEq

variable (nvram : Nvram) (direction : Direction)

def ratesText : Bytes :=
  if nvram.int (bytes "qos_classify") = 0 then
    buildDisabledClassificationRates mwanMax.toNat
  else
    match direction with
    | .outgoing => nvram (bytes "qos_orates")
    | .incoming => nvram (bytes "qos_irates")

/-- `sscanf(p, "%u-%u", &rate, &ceil)` for a rate that is not off. -/
def readRate (text : Bytes) : Option (ℕ × ℕ) :=
  match scanFields 10 text.length (ascii '-') 1 text with
  | some ([rate, ceil], _) => if rate < 1 then none else some (rate, ceil)
  | _ => none

/-- The rate and the ceiling at a place of the list, unless they are off. -/
def rateAt (index : ℕ) : Option (ℕ × ℕ) :=
  ((ratesText nvram direction).splitOn (ascii ','))[index]?.bind readRate

def inUse (classNum : ℕ) : Bool :=
  (BitVec.ofInt 32 (nvram.int (bytes "qos_inuse"))).getLsbD classNum

/-- `calc` -/
def calcRate (bw pct : ℕ) : ℕ :=
  max 2 (bw * pct / 100 % 2 ^ 32)

/-- The bandwidth of a WAN: `qos_obw` or `qos_ibw`. -/
def bandwidth (wanPrefix : Bytes) (direction : Direction) : ℕ :=
  let text :=
    match direction with
    | .outgoing => nvram.ofUnit wanPrefix "qos_obw"
    | .incoming => nvram.ofUnit wanPrefix "qos_ibw"
  (strtoul text).toNat % 2 ^ 32

/-! ## The quantum -/

def mtu (nvram : Nvram) (wanPrefix : Bytes) : ℕ :=
  (strtoul (nvram.ofUnit wanPrefix "mtu")).toNat % 2 ^ 32

/-- `r2q` for a rate in bits: `bw * 1000`. -/
def chooseR2q (rate mtu : ℕ) : ℕ :=
  if rate / (8 * 10) < mtu then max 1 (rate / (8 * mtu % 2 ^ 32))
  else if 60000 < rate / (8 * 10) then rate / (8 * 60000) + 1
  else 10

/-- The factor of the root, in the arithmetic of `unsigned int`. -/
def rootR2q (wanPrefix : Bytes) (direction : Direction) : ℕ :=
  chooseR2q (bandwidth nvram wanPrefix direction * 1000 % 2 ^ 32)
    (mtu nvram wanPrefix)

/-- What a root of HTB may send in a turn is bounded, and a packet fits if the
factor leaves a choice. -/
structure GoodR2q (rate mtu r2q : ℕ) : Prop where
  pos : 1 ≤ r2q
  quantum_le : rate / (8 * r2q) ≤ 60000
  mtu_le : 1 < r2q → mtu ≤ rate / (8 * r2q)

section
variable {rate mtu : ℕ} (hmtu : 576 ≤ mtu ∧ mtu ≤ 9000)
include hmtu

theorem goodR2q_chooseR2q : GoodR2q rate mtu (chooseR2q rate mtu) := by
  rw [chooseR2q, Nat.mod_eq_of_lt (by omega : 8 * mtu < 2 ^ 32)]
  split_ifs with hsmall hlarge
  · have hle := Nat.div_mul_le_self rate (8 * mtu)
    have hlt : rate < rate / (8 * mtu) * (8 * mtu) + 8 * mtu :=
      Nat.lt_div_mul_add (by omega)
    generalize rate / (8 * mtu) = r2q at hle hlt ⊢
    refine ⟨Nat.le_max_left _ _, Nat.div_le_of_le_mul ?_, fun hone => ?_⟩
    · have hbound : r2q * (8 * mtu) ≤ r2q * 72000 :=
        Nat.mul_le_mul_left r2q (by omega)
      omega
    · rwa [Nat.le_div_iff_mul_le (by omega), Nat.max_eq_right (by omega),
        Nat.mul_left_comm, Nat.mul_comm mtu, Nat.mul_left_comm]
  · refine ⟨Nat.le_add_left _ _, Nat.div_le_of_le_mul (by omega), fun _ => ?_⟩
    rw [Nat.le_div_iff_mul_le (by omega)]
    have hbound := Nat.mul_le_mul_right (8 * (rate / (8 * 60000) + 1)) hmtu.2
    omega
  · exact ⟨by decide, by omega, fun _ => by omega⟩

theorem chooseR2q_mul_le :
    chooseR2q rate mtu * (8 * 60000) ≤ rate + 10 * (8 * 60000) := by
  rw [chooseR2q, Nat.mod_eq_of_lt (by omega : 8 * mtu < 2 ^ 32)]
  split_ifs with hsmall hlarge
  · have hten : rate / (8 * mtu) < 10 :=
      (Nat.div_lt_iff_lt_mul (by omega)).2 (by omega)
    omega
  · omega
  · omega

end

/-- The factor is right exactly for the rates that fit 32 bits. -/
theorem goodR2q_iff {nvram : Nvram} {wanPrefix : Bytes} (direction : Direction)
    (hmtu : 576 ≤ mtu nvram wanPrefix ∧ mtu nvram wanPrefix ≤ 9000) :
    GoodR2q (bandwidth nvram wanPrefix direction * 1000) (mtu nvram wanPrefix)
        (rootR2q nvram wanPrefix direction) ↔
      bandwidth nvram wanPrefix direction * 1000 < 2 ^ 32 := by
  rw [rootR2q]
  generalize bandwidth nvram wanPrefix direction * 1000 = rate
  constructor
  · intro hgood
    have hpos := hgood.pos
    have hle := hgood.quantum_le
    rw [Nat.div_le_iff_le_mul_add_pred (by omega)] at hle
    have hbound := @chooseR2q_mul_le (rate % 2 ^ 32) _ hmtu
    omega
  · intro hfits
    rw [Nat.mod_eq_of_lt hfits]
    exact goodR2q_chooseR2q hmtu

/-- A WAN with an MTU of 1500 and this outgoing bandwidth. -/
def outgoingOf (obw : String) (name : Bytes) : Bytes :=
  if name = bytes "wan_mtu" then bytes "1500"
  else if name = bytes "wan_qos_obw" then bytes obw
  else []

theorem goodR2q_gigabit :
    GoodR2q 1000000000 1500
      (rootR2q (outgoingOf "1000000") (bytes "wan") .outgoing) :=
  (@goodR2q_iff (outgoingOf "1000000") (bytes "wan") .outgoing (by decide)).2
    (by decide)

/-- The product of this bandwidth wraps to 704. -/
theorem not_goodR2q_wrapped :
    bandwidth (outgoingOf "4294968") (bytes "wan") .outgoing = 4294968 ∧
      mtu (outgoingOf "4294968") (bytes "wan") = 1500 ∧
      ¬ GoodR2q (4294968 * 1000) 1500
        (rootR2q (outgoingOf "4294968") (bytes "wan") .outgoing) := by
  refine ⟨by decide, by decide, fun hgood => ?_⟩
  exact absurd hgood.quantum_le (by decide)

/-! ## Classes and filters -/

/-- `tc class add .. classid 1:.. htb rate .. ceil .. prio ..` -/
structure TcClass where
  classid : ℕ
  rate : ℕ
  ceil : Option ℕ
  prio : ℕ
deriving DecidableEq

/-- A byte of the IP header under a mask. -/
structure ByteTest where
  position : ℕ
  value : Byte
  mask : Byte
deriving DecidableEq

/-- What a filter looks at: `handle ../.. fw` or `u32 match ..`. -/
inductive FilterTest where
  | mark (handle mask : BitVec 32)
  | header (tests : List ByteTest)
deriving DecidableEq

/-- `tc filter add .. prio .. protocol .. flowid 1:..` -/
structure Filter where
  prio : ℕ
  ipv6 : Bool
  test : FilterTest
  flowid : ℕ
deriving DecidableEq

/-- A root of HTB with its classes and filters. -/
structure Htb where
  defaultId : ℕ
  classes : List TcClass
  filters : List Filter
deriving DecidableEq

/-- The class for a place of the list. -/
def classFor (bw index : ℕ) (entry : ℕ × ℕ) : TcClass :=
  { classid := (index + 1) * 10
    rate := calcRate bw entry.1
    ceil :=
      match direction with
      | .outgoing =>
        if 0 < entry.2 then some (calcRate bw entry.2) else none
      | .incoming => some (calcRate bw entry.2)
    prio := index + 1 }

/-- The filters for a place of the list, for IPv4 and IPv6. -/
def markFilters (index : ℕ) : List Filter :=
  let x := (index + 1) * 10
  let test := FilterTest.mark (BitVec.ofNat 32 (index + 1)) 0xf#32
  [⟨x, false, test, x⟩, ⟨x + 100, true, test, x⟩]

/-- The places for which a class is built, with their rates. -/
def built (globals : Globals) : List (ℕ × ℕ × ℕ) :=
  (List.range (classesNum * globals.qosWanNum)).filterMap fun index =>
    if index < globals.qosRateStartIndex ∨ ¬ inUse nvram (index % classesNum)
    then none
    else (rateAt nvram direction index).map fun entry => (index, entry)

/-- A small TCP packet with some of its flags. -/
def tcpTests (flags mask : Byte) : FilterTest :=
  .header [⟨9, 6, 0xff⟩, ⟨0, 0x05, 0x0f⟩, ⟨2, 0, 0xff⟩, ⟨3, 0, 0xc0⟩,
    ⟨33, flags, mask⟩]

/-- The filters of the options `qos_ack`, `qos_syn`, `qos_fin`, `qos_rst` and
`qos_icmp`, which all name class 1:10. -/
def optionFilters : List Filter :=
  let filter (name : String) (prio : ℕ) (test : FilterTest) : List Filter :=
    if nvram.int (bytes name) ≠ 0 then [⟨prio, false, test, 10⟩] else []
  filter "qos_ack" 14 (tcpTests 0x10 0xff) ++
    filter "qos_syn" 15 (tcpTests 0x02 0x02) ++
    filter "qos_fin" 17 (tcpTests 0x01 0x01) ++
    filter "qos_rst" 19 (tcpTests 0x04 0x04) ++
    filter "qos_icmp" 13 (.header [⟨9, 1, 0xff⟩])

/-- `qosDefaultClassId` -/
def qosDefaultClassId : ℕ :=
  toUnsigned ((nvram.int (bytes "qos_default") + 1) * 10)

/-- The tree for one direction.  The incoming one has no root before its first
class, and no filters for the options. -/
def htb (wanPrefix : Bytes) (globals : Globals)
    (direction : Direction) : Option Htb :=
  let places := built nvram direction globals
  let bw := bandwidth nvram wanPrefix direction
  let classes := places.map fun place => classFor direction bw place.1 place.2
  let filters := places.flatMap fun place => markFilters place.1
  match direction with
  | .outgoing =>
    some ⟨qosDefaultClassId nvram, classes, filters ++ optionFilters nvram⟩
  | .incoming =>
    if places = [] then none
    else some ⟨qosDefaultClassId nvram, classes, filters⟩

/-! ## Scripts -/

/-- What a script is about.  With `cake` it has no classes. -/
structure Script where
  wanDev : Bytes
  qosDev : Bytes
  wanNum : ℕ
  outgoing : Option Htb
  incoming : Option Htb
deriving DecidableEq

def Script.htb (script : Script) : Direction → Option Htb
  | .outgoing => script.outgoing
  | .incoming => script.incoming

/-- The script that `start_qos` writes. -/
def scriptFor (wanPrefix : Bytes) (globals : Globals) : Script :=
  let cake := nvram.int (bytes "qos_mode") = 2
  { wanDev := getWanface nvram wanPrefix
    qosDev := globals.qosdev
    wanNum := globals.qosWanNum
    outgoing := if cake then none else htb nvram wanPrefix globals .outgoing
    incoming := if cake then none else htb nvram wanPrefix globals .incoming }

end Tomato64.Qos
