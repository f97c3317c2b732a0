import Tomato64.Core.Scan

/-!
# Hosts and subnets on the quota page

`v_quota_host` takes a subnet `a.b.c.d/n` if its address lies in the network of
some bridge, and stores it without the host bits.  It does not compare the
prefix with the netmask of that bridge.  `v_macip` takes an address or a range
in one network, and stores a range with the first octets of its end only.
-/

namespace Tomato64.LanHosts

open List Scan Text

structure Address where
  (a b c d : UInt8)
deriving DecidableEq

variable (address : Address)

/-- `aton` -/
def Address.aton : ℕ :=
  ((address.a.toNat * 256 + address.b.toNat) * 256 + address.c.toNat) * 256 +
    address.d.toNat

/-- The address as an operand of `&`. -/
def Address.bits : BitVec 32 :=
  BitVec.ofNat 32 address.aton

/-- The first three octets, each with a dot. -/
def Address.front : Bytes :=
  [address.a, address.b, address.c].flatMap fun octet =>
    decimal octet.toNat ++ [46]

/-- The address and the netmask of a bridge that has both. -/
structure Bridge where
  (ipaddr netmask : Address)

variable (bridge : Bridge)

def Bridge.Contains (address : BitVec 32) : Prop :=
  address &&& bridge.netmask.bits = bridge.ipaddr.bits &&& bridge.netmask.bits

instance (bits : BitVec 32) : Decidable (bridge.Contains bits) :=
  inferInstanceAs (Decidable (_ = _))

/-! ## Reading addresses -/

def whole (base : ℕ) (digits : Bytes) : Option ℕ :=
  if digits ≠ [] ∧ digits.all (isDigitOf base) then some (valueOf base digits)
  else none

def dropPlus : Bytes → Bytes
  | 43 :: text => text
  | text => text

/-- Digits, with a power of ten behind them if there is one. -/
def decimalNumber (text : Bytes) : Option ℕ :=
  let digits := (dropPlus text).takeWhile isDigit
  match (dropPlus text).dropWhile isDigit with
  | [] => whole 10 digits
  | letter :: power =>
    if letter ∈ bytes "eE" then
      (whole 10 digits).bind fun value =>
        (whole 10 (dropPlus power)).map fun power => value * 10 ^ power
    else none

def radix (letter : Byte) : Option ℕ :=
  if letter ∈ bytes "xX" then some 16
  else if letter ∈ bytes "oO" then some 8
  else if letter ∈ bytes "bB" then some 2
  else none

/-- `text * 1`, for a text without blanks, dots and minus signs. -/
def number (text : Bytes) : Option ℕ :=
  match text with
  | [] => some 0
  | 48 :: letter :: digits =>
    match radix letter with
    | some base => whole base digits
    | none => decimalNumber text
  | _ => decimalNumber text

def octet (part : Bytes) : Option UInt8 :=
  (number part).bind fun value =>
    if value ≤ 255 then some (UInt8.ofNat value) else none

def fixIP (ip : Bytes) : Option Address :=
  let text := match splitAtKey (bytes "<br>") ip with
    | some (first :: front, _) => first :: front
    | _ => ip
  match (text.splitOn 46).mapM octet with
  | some [a, b, c, d] => some ⟨a, b, c, d⟩
  | _ => none

def isNumeral (text : Bytes) : Bool :=
  text ≠ [] && text.all isDigit

/-! ## Subnets -/

def cmask (bits : ℕ) : BitVec 32 :=
  if bits = 0 then 0 else BitVec.allOnes 32 <<< (32 - bits)

/-- The address and the prefix of a text `a.b.c.d/n`. -/
def readSubnet (value : Bytes) : Option (BitVec 32 × ℕ) :=
  match (value.filter (!isSpace ·)).splitOn 47 with
  | [ip, bits] =>
    if (bits :: ip.splitOn 46).all isNumeral ∧ valueOf 10 bits ≤ 32 then
      (fixIP ip).map fun base => (base.bits, valueOf 10 bits)
    else none
  | _ => none

/-- What `v_quota_host` stores for a subnet that it accepts. -/
def vQuotaHost (bridges : List Bridge) (value : Bytes) :
    Option (BitVec 32 × ℕ) :=
  (readSubnet value).bind fun (base, bits) =>
    if ∃ bridge ∈ bridges, bridge.Contains base then
      some (base &&& cmask bits, bits)
    else none

/-- A block without host bits, all of it in the network of one bridge. -/
def Inside (bridges : List Bridge) (block : BitVec 32 × ℕ) : Prop :=
  block.1 &&& cmask block.2 = block.1 ∧
    ∃ bridge ∈ bridges, ∀ address, address &&& cmask block.2 = block.1 →
      bridge.Contains address

/-- A block lies in a network if its address does, and if its mask leaves no
bit of the netmask free. -/
theorem contains_block_iff (base mask : BitVec 32) :
    (∀ address, address &&& mask = base &&& mask → bridge.Contains address) ↔
      bridge.Contains base ∧
        bridge.netmask.bits &&& mask = bridge.netmask.bits := by
  simp only [Bridge.Contains]
  generalize bridge.netmask.bits = netmask
  constructor
  · intro hblock
    have hbase := hblock base rfl
    refine ⟨hbase, ?_⟩
    -- The free bits of the netmask are turned over.
    have hother : (base ^^^ (netmask &&& ~~~mask)) &&& mask =
        base &&& mask := by
      ext index
      simp only [BitVec.getElem_and, BitVec.getElem_xor, BitVec.getElem_not]
      cases mask[index] <;> simp
    have hfree := (hblock _ hother).trans hbase.symm
    ext index
    have hbit := congrArg (fun bits : BitVec 32 => bits[index]) hfree
    simp only [BitVec.getElem_and, BitVec.getElem_xor,
      BitVec.getElem_not] at hbit ⊢
    revert hbit
    cases base[index] <;> cases netmask[index] <;> cases mask[index] <;> simp
  · rintro ⟨hbase, hmask⟩ address hsame
    rw [← hbase, ← hmask, BitVec.and_comm netmask, ← BitVec.and_assoc, hsame,
      BitVec.and_assoc]

/-- The stored block keeps to a network exactly if some network of the typed
address has no netmask bit behind the prefix. -/
theorem vQuotaHost_inside_iff (bridges : List Bridge) (value : Bytes) :
    (∀ block, vQuotaHost bridges value = some block → Inside bridges block) ↔
      ∀ base bits, readSubnet value = some (base, bits) →
        (∃ bridge ∈ bridges, bridge.Contains base) →
          ∃ bridge ∈ bridges, bridge.Contains base ∧
            bridge.netmask.bits &&& cmask bits = bridge.netmask.bits := by
  simp only [vQuotaHost, Option.bind_eq_some_iff, Prod.exists]
  constructor
  · intro hinside base bits hread hbridge
    obtain ⟨-, bridge, hmem, hblock⟩ :=
      hinside _ ⟨base, bits, hread, if_pos hbridge⟩
    exact ⟨bridge, hmem, (contains_block_iff bridge base _).mp hblock⟩
  · rintro hcovers block ⟨base, bits, hread, hstored⟩
    rw [Option.ite_none_right_eq_some, Option.some.injEq] at hstored
    obtain ⟨hbridge, rfl⟩ := hstored
    obtain ⟨bridge, hmem, hblock⟩ := hcovers base bits hread hbridge
    refine ⟨?_, bridge, hmem, (contains_block_iff bridge base _).mpr hblock⟩
    rw [BitVec.and_assoc, BitVec.and_self]

def homeLan : Bridge := ⟨⟨192, 168, 1, 1⟩, ⟨255, 255, 255, 0⟩⟩

/-- The block of a whole class B network is taken for a part of the LAN. -/
theorem vQuotaHost_wide_fails :
    ∃ block, vQuotaHost [homeLan] (bytes "192.168.1.0/16") = some block ∧
      ¬ Inside [homeLan] block := by
  refine ⟨(Address.bits ⟨192, 168, 0, 0⟩, 16), by decide, ?_⟩
  rintro ⟨-, bridge, hmem, hblock⟩
  obtain rfl := mem_singleton.mp hmem
  have hother := hblock (Address.bits ⟨192, 168, 2, 0⟩) (by decide)
  revert hother
  decide

/-! ## Ranges -/

def isMac (text : Bytes) : Bool :=
  let parts := if text.length = 12 then
      (range 6).map fun index => (text.drop (2 * index)).take 2
    else text.splitOnP fun char => char = 58 || char = 45
  text = [] || parts.length = 6 && parts.all fun part =>
    part ≠ [] && part.all (isDigitOf 16) && valueOf 16 part ≤ 255

/-- The first three parts of a text, each with a dot. -/
def frontOf (text : Bytes) : Bytes :=
  (range 3).flatMap fun index =>
    (text.splitOn 46)[index]?.getD (bytes "undefined") ++ [46]

/-- An end that is a number only is put behind the front of an address. -/
def complete (front part : Bytes) : Bytes :=
  if isNumeral part then front ++ part else part

/-- The addresses that `v_macip` accepts: one, or the two ends of a range. -/
def vMacip (lan : Bridge) (value : Bytes) : Option (List Address) :=
  let text := value.filter (!isSpace ·)
  let ipp := lan.ipaddr.front
  let ends := match text.splitOn 45 with
    | [first, last] =>
      [complete ipp first,
        complete (if isNumeral first then ipp else frontOf first) last]
    | parts => parts.map (complete ipp)
  if isMac text ∨ 2 < ends.length then none
  else (ends.mapM fixIP).bind fun addresses =>
    if (∀ address ∈ addresses, lan.Contains address.bits) ∧
        addresses.Pairwise fun first last => first.d < last.d then
      some addresses
    else none

/-- A range in the form that is stored, `A.B.C.x-y`. -/
structure Shorthand where
  (a b c low high : UInt8)

def Shorthand.Denotes (range : Shorthand) (address : Address) : Prop :=
  (address.a = range.a ∧ address.b = range.b ∧ address.c = range.c) ∧
    range.low ≤ address.d ∧ address.d ≤ range.high

def stored (first last : Address) : Shorthand :=
  ⟨last.a, last.b, last.c, first.d, last.d⟩

/-- From the lower to the upper address. -/
def Between (first last address : Address) : Prop :=
  min first.aton last.aton ≤ address.aton ∧
    address.aton ≤ max first.aton last.aton

def SameFront (first last : Address) : Prop :=
  first.a = last.a ∧ first.b = last.b ∧ first.c = last.c

theorem stored_denotes_iff {first last : Address} (hless : first.d < last.d) :
    (∀ address, (stored first last).Denotes address ↔
      Between first last address) ↔ SameFront first last := by
  constructor
  · intro hdenotes
    exact ((hdenotes first).mpr ⟨min_le_left _ _, le_max_left _ _⟩).1
  rintro ⟨ha, hb, hc⟩ address
  simp only [Shorthand.Denotes, stored, Between, Address.aton, ha, hb, hc]
  rw [UInt8.lt_iff_toNat_lt] at hless
  simp only [← UInt8.toNat_inj, UInt8.le_iff_toNat_le]
  have hbound := UInt8.toNat_lt
  have := hbound address.b
  have := hbound address.c
  have := hbound address.d
  have := hbound last.b
  have := hbound last.c
  have := hbound last.d
  omega

theorem pairwise_of_vMacip {lan : Bridge} {value : Bytes}
    {addresses : List Address} (haccepted : vMacip lan value = some addresses) :
    addresses.Pairwise fun first last => first.d < last.d := by
  simp only [vMacip, Option.ite_none_left_eq_some, Option.bind_eq_some_iff,
    Option.ite_none_right_eq_some, Option.some.injEq] at haccepted
  obtain ⟨-, typed, -, ⟨-, hless⟩, rfl⟩ := haccepted
  exact hless

/-- A range is stored as it was typed exactly if its ends agree in the first
three octets. -/
theorem vMacip_denotes_iff (lan : Bridge) (value : Bytes) :
    (∀ first last, vMacip lan value = some [first, last] →
      ∀ address, (stored first last).Denotes address ↔
        Between first last address) ↔
      ∀ first last, vMacip lan value = some [first, last] →
        SameFront first last := by
  refine forall₂_congr fun first last => forall_congr' fun haccepted => ?_
  have hless := pairwise_pair.mp (pairwise_of_vMacip haccepted)
  exact stored_denotes_iff hless

/-- In a larger LAN the range gets the first octets of its end. -/
theorem vMacip_twoFronts_fails :
    vMacip ⟨⟨192, 168, 1, 1⟩, ⟨255, 255, 0, 0⟩⟩
        (bytes "192.168.1.5-192.168.2.10") =
      some [⟨192, 168, 1, 5⟩, ⟨192, 168, 2, 10⟩] ∧
    ¬ ∀ address, (stored ⟨192, 168, 1, 5⟩ ⟨192, 168, 2, 10⟩).Denotes address ↔
      Between ⟨192, 168, 1, 5⟩ ⟨192, 168, 2, 10⟩ address := by
  refine ⟨by decide, fun hdenotes => ?_⟩
  have hfront := (stored_denotes_iff (by decide)).mp hdenotes
  revert hfront
  simp [SameFront]

end Tomato64.LanHosts
