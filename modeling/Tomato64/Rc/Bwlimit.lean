import Tomato64.Core.Run
import Tomato64.Core.Split
import Tomato64.Shared.Misc

/-!
# The bandwidth limiter

`ipt_bwlimit` writes the lines that mark the packets of limited hosts, and
`start_bwlimit` the script with a class for each mark.  Both of them go through
the records of `bwl_rules`, in two loops of the same form, and give the next
number to each record in use.
-/

namespace Tomato64.Bwlimit

open Text Scan Split Shared Run

/-- The fields of a record behind `enabled` and before the description. -/
structure Record where
  ipaddr : Bytes
  dlrate : Bytes
  dlceil : Bytes
  ulrate : Bytes
  ulceil : Bytes
  priority : Bytes
  tcplimit : Bytes
  udplimit : Bytes
deriving DecidableEq

variable (text : Bytes)

/-- A record of the old format, from the copy in the 128 bytes of `p1`. -/
def readOld : Option Record :=
  match (text.take 127).splitOn (ascii '<') with
  | ipaddr :: dlrate :: dlceil :: ulrate :: ulceil :: priority :: tcplimit ::
      udplimit :: _ =>
      some ⟨ipaddr, dlrate, dlceil, ulrate, ulceil, priority, tcplimit,
        udplimit⟩
  | _ => none

/-- `vstrsep(p, "<", ...)` and what follows it if there are not ten fields. -/
def readFields : Option Record :=
  match text.splitOn (ascii '<') with
  | enabled :: ipaddr :: dlrate :: dlceil :: ulrate :: ulceil :: priority ::
      tcplimit :: udplimit :: _ :: _ =>
      if enabled ≠ [] ∧ atoi enabled ≠ 1 then none
      else
        some ⟨ipaddr, dlrate, dlceil, ulrate, ulceil, priority, tcplimit,
          udplimit⟩
  | _ => readOld text

/-- A record that is in use. -/
def readRecord : Option Record :=
  (readFields text).filter fun record =>
    0 ≤ atoi record.priority ∧ atoi record.priority ≤ 5 ∧ record.ipaddr ≠ []

variable (nvram : Nvram)

/-- The records of `bwl_rules`, as texts. -/
def recordTexts : List Bytes :=
  (nvram (bytes "bwl_rules")).splitOn (ascii '>')

/-- The records in use. -/
def records : List Record :=
  (recordTexts nvram).filterMap readRecord

/-! ## Addresses -/

inductive AddressType where
  | ipAddress
  | macAddress
  | ipRange
deriving DecidableEq

/-- The front of a text up to its last dot, as `strrchr` finds it. -/
def throughLastDot : Bytes :=
  (text.reverse.dropWhile (· ≠ ascii '.')).reverse

/-- What `address_checker` writes for a short range, `192.168.1.10-20`, stays
inside a buffer.  Without a dot the length that it takes from `strrchr` makes
no sense, and the copies run out of the buffer. -/
def FitsShort (bufSz : ℕ) (front : Bytes) : Prop :=
  throughLastDot front ≠ [] ∧
    front.length + (throughLastDot front).length + 2 ≤ bufSz

instance (bufSz : ℕ) (front : Bytes) : Decidable (FitsShort bufSz front) :=
  inferInstanceAs (Decidable (_ ∧ _))

/-- `address_checker`, for the size of the buffer of the address.  There is no
result when it writes behind the buffer. -/
def addressChecker (ipaddrOld : Bytes) (bufSz : ℕ) :
    Option (AddressType × Bytes) :=
  match splitFirst (ascii '-') ipaddrOld with
  | some (front, back) =>
    if ascii '.' ∈ back then some (.ipRange, ipaddrOld.take (bufSz - 1))
    else if FitsShort bufSz front then
      some (.ipRange, (front ++ ascii '-' :: throughLastDot front ++
        back).take (bufSz - 1))
    else none
  | none =>
    if ipaddrOld.length ≠ 17 then
      some (.ipAddress, ipaddrOld.take (bufSz - 1))
    else some (.macAddress, ipaddrOld.take (bufSz - 1))

/-! ## Rates and numbers -/

def orElse (ceil rate : Bytes) : Bytes :=
  if ceil = [] then rate else ceil

/-- The mark of the rule with a number, as `%x` prints it. -/
def ruleMark (iSeq : ℕ) : ℕ :=
  (iSeq <<< 20) % 2 ^ 32

def ruleMask : ℕ := 0xff00000

variable (index : ℕ)

/-- The mark of a whole bridge, `0x10` for br0. -/
def bridgeMark : ℕ :=
  16 * (index + 1)

def bridgeMask : ℕ := 0xf0

def bridgeCount : ℕ := 8

/-- The indices of the bridges other than br0. -/
def otherBridges : List ℕ :=
  List.range' 1 (bridgeCount - 1)

/-- A setting of the limit for a whole bridge. -/
def bridgeKey (suffix : String) : Bytes :=
  bytes "bwl_lan" ++ (if index = 0 then [] else decimal index) ++ bytes suffix

/-- The address or the netmask of a bridge. -/
def bridgeNvramGet (suffix : String) : Bytes :=
  nvram (bytes "lan" ++ (if index = 0 then [] else decimal index) ++
    bytes suffix)

def bridgeEnabled : Prop :=
  nvram.int (bridgeKey index "_enable") = 1

instance (nvram : Nvram) (index : ℕ) : Decidable (bridgeEnabled nvram index) :=
  inferInstanceAs (Decidable (_ = _))

/-- What one of the two functions writes: before its loop, for each record in
use, and behind the loop. -/
structure Output (Piece : Type) where
  before : List Piece
  rules : List (List Piece)
  behind : List Piece
deriving DecidableEq

def Output.empty {Piece : Type} : Output Piece :=
  ⟨[], [], []⟩

/-- All that is written, in order. -/
def Output.pieces {Piece : Type} (output : Output Piece) : List Piece :=
  output.before ++ output.rules.flatten ++ output.behind

/-! ## Lines of the tables -/

/-- `MANGLE`, `NAT` and `Filter`, as the argument of `ipt_bwlimit`. -/
inductive Chain where
  | mangle
  | nat
  | filter
deriving DecidableEq

inductive Hook where
  | prerouting
  | postrouting
  | forward
deriving DecidableEq

/-- A condition of a line. -/
inductive Match where
  | source (inverted : Bool) (address : Bytes)
  | destination (inverted : Bool) (address : Bytes)
  | srcRange (range : Bytes)
  | dstRange (range : Bytes)
  | macSource (address : Bytes)
  /-- `-p tcp --syn -m connlimit --connlimit-above` -/
  | connlimitAbove (limit : Bytes)
  /-- `-p udp -m limit --limit`, per second -/
  | udpLimit (limit : Bytes)
deriving DecidableEq

inductive Target where
  | setMark (value mask : ℕ)
  | drop
  | accept
deriving DecidableEq

structure Line where
  hook : Hook
  conditions : List Match
  target : Target
deriving DecidableEq

def subnet (address netmask : Bytes) : Bytes :=
  address ++ ascii '/' :: netmask

/-- The addresses of br0. -/
def lanSubnet : Bytes :=
  subnet (nvram (bytes "lan_ipaddr")) (nvram (bytes "lan_netmask"))

/-- The lines that mark all packets between a bridge and the rest. -/
def bridgeLines : List Line :=
  let lan := subnet (bridgeNvramGet nvram index "_ipaddr")
    (bridgeNvramGet nvram index "_netmask")
  let target := .setMark (bridgeMark index) bridgeMask
  if bridgeEnabled nvram index then
    [⟨.postrouting, [.source true lan, .destination false lan], target⟩,
      ⟨.prerouting, [.source false lan, .destination true lan], target⟩]
  else []

def iptBridges : Chain → List Line
  | .mangle => (0 :: otherBridges).flatMap (bridgeLines nvram)
  | .nat =>
    if bridgeEnabled nvram 0 ∧ 0 < nvram.int (bytes "bwl_lan_udp") then
      [⟨.prerouting, [.source false (lanSubnet nvram),
        .udpLimit (nvram (bytes "bwl_lan_udp"))], .accept⟩]
    else []
  | .filter =>
    if bridgeEnabled nvram 0 ∧ 0 < nvram.int (bytes "bwl_lan_tcp") then
      [⟨.forward, [.source false (lanSubnet nvram),
        .connlimitAbove (nvram (bytes "bwl_lan_tcp"))], .drop⟩]
    else []

/-- The host of a rule as the source of a packet. -/
def sourceMatch : AddressType → Bytes → Match
  | .ipAddress, ipaddr => .source false ipaddr
  | .macAddress, ipaddr => .macSource ipaddr
  | .ipRange, ipaddr => .srcRange ipaddr

/-- The line that marks the downloads of a host.  A MAC address has none. -/
def downloadLine (lan : Bytes) (target : Target) :
    AddressType → Bytes → List Line
  | .ipAddress, ipaddr =>
    [⟨.postrouting, [.source true lan, .destination false ipaddr], target⟩]
  | .macAddress, _ => []
  | .ipRange, ipaddr =>
    [⟨.postrouting, [.source true lan, .dstRange ipaddr], target⟩]

/-- The round of the loop in `ipt_bwlimit`. -/
def iptRound (chain : Chain) (iSeq : ℕ) (record : Record) :
    Option (List Line) :=
  (addressChecker record.ipaddr 32).map fun (addressType, ipaddr) =>
    let lan := lanSubnet nvram
    let target := .setMark (ruleMark iSeq) ruleMask
    let host := sourceMatch addressType ipaddr
    let dlceil := orElse record.dlceil record.dlrate
    let ulceil := orElse record.ulceil record.ulrate
    (if record.dlrate ≠ [] ∧ dlceil ≠ [] ∧ chain = .mangle then
        downloadLine lan target addressType ipaddr
      else []) ++
    (if record.ulrate ≠ [] ∧ ulceil ≠ [] ∧ chain = .mangle then
        [⟨.prerouting, [host, .destination true lan], target⟩]
      else []) ++
    (if 0 < atoi record.tcplimit ∧ chain = .filter then
        [⟨.forward, [host, .connlimitAbove record.tcplimit], .drop⟩]
      else []) ++
    if 0 < atoi record.udplimit ∧ chain = .nat then
      [⟨.prerouting, [host, .udpLimit record.udplimit], .accept⟩]
    else []

def iptBwlimit (chain : Chain) : Option (Output Line) :=
  if nvram.int (bytes "bwl_enable") = 0 then some .empty
  else
    (numbered readRecord (iptRound nvram chain) 1 (recordTexts nvram)).map
      fun rules => ⟨iptBridges nvram chain, rules, []⟩

/-! ## The script -/

/-- The device of a command, a bridge or the WAN.  The commands for the WAN are
carried out when `qos_enable` is 0. -/
inductive Device where
  | bridge (index : ℕ)
  | wan
deriving DecidableEq

/-- What a filter looks at: a mark, or the MAC address that it finds in the
frame. -/
inductive Selector where
  | fwmark (value mask : ℕ)
  | mac (address : Bytes)
deriving DecidableEq

structure ClassId where
  major : ℕ
  minor : ℕ
deriving DecidableEq

/-- The commands of the script, by what they build together. -/
inductive Command where
  /-- The qdisc with a handle at the root of a device, and its class 1. -/
  | trunk (device : Device) (handle : ℕ) (rate : Bytes)
  /-- A class below class 1 of a device, the queue in the class with the minor
  number as its handle, and the filter that leads to the class. -/
  | branch (device : Device) (classid : ClassId) (rate ceil prio : Bytes)
      (filterPrio : Bytes) (selector : Selector)
deriving DecidableEq

/-- The round of the loop in `start_bwlimit`.  What stands in for the ceiling of
an upload is the rate of the download. -/
def startRound (iSeq : ℕ) (record : Record) : Option (List Command) :=
  (addressChecker record.ipaddr 30).map fun (addressType, ipaddr) =>
    let priority := decimal ((atoi record.priority).toNat + 1)
    let seq := iSeq * 10
    let mark := Selector.fwmark (ruleMark iSeq) ruleMask
    let dlceil := orElse record.dlceil record.dlrate
    let ulceil := orElse record.ulceil record.dlrate
    (if record.dlrate ≠ [] ∧ dlceil ≠ [] then
        [.branch (.bridge 0) ⟨1, seq⟩ record.dlrate dlceil priority priority
          (if addressType ≠ .macAddress then mark else .mac ipaddr)]
      else []) ++
    if record.ulrate ≠ [] ∧ ulceil ≠ [] then
      [.branch .wan ⟨2, seq⟩ record.ulrate ulceil priority priority mark]
    else []

/-- The two classes for all packets of br0.  Their filters come behind those of
the rules, by a 1 before the priority. -/
def startLan : List Command :=
  let dlr := nvram (bytes "bwl_lan_dlr")
  let ulr := nvram (bytes "bwl_lan_ulr")
  let prio := nvram (bytes "bwl_lan_prio")
  let mark := Selector.fwmark (bridgeMark 0) bridgeMask
  if bridgeEnabled nvram 0 ∧ dlr ≠ [] ∧ ulr ≠ [] then
    [.branch (.bridge 0) ⟨1, 16⟩ dlr (orElse (nvram (bytes "bwl_lan_dlc")) dlr)
        prio (ascii '1' :: prio) mark,
      .branch .wan ⟨2, 16⟩ ulr (orElse (nvram (bytes "bwl_lan_ulc")) ulr) prio
        (ascii '1' :: prio) mark]
  else []

/-- The commands for all packets of a bridge other than br0. -/
def startBridge : List Command :=
  let id1 := 2 * index + 2
  let id2 := 16 * (index - 1) + 32
  let dlr := nvram (bridgeKey index "_dlr")
  let ulr := nvram (bridgeKey index "_ulr")
  let prio := nvram (bridgeKey index "_prio")
  let mark := Selector.fwmark (bridgeMark index) bridgeMask
  if bridgeEnabled nvram index then
    [.trunk (.bridge index) id1 (nvram (bytes "wan_qos_ibw")),
      .branch (.bridge index) ⟨id1, id2⟩ dlr
        (orElse (nvram (bridgeKey index "_dlc")) dlr) prio prio mark,
      .branch .wan ⟨2, id2⟩ ulr (orElse (nvram (bridgeKey index "_ulc")) ulr)
        prio prio mark]
  else []

def startBwlimit : Option (Output Command) :=
  if nvram.int (bytes "bwl_enable") = 0 then some .empty
  else
    (numbered readRecord startRound 1 (recordTexts nvram)).map fun rules =>
      ⟨[.trunk (.bridge 0) 1 (nvram (bytes "wan_qos_ibw")),
          .trunk .wan 2 (nvram (bytes "wan_qos_obw"))],
        rules, startLan nvram ++ otherBridges.flatMap (startBridge nvram)⟩

end Tomato64.Bwlimit
