import Tomato64.Core.Chains
import Tomato64.Rc.Wireguard

/-!
# Marks of the routing tables

The WANs, the OpenVPN clients and the WireGuard units in policy mode share the
four bits 8 to 11 of the packet mark.  Each of them marks packets with
`--set-mark v/0xf00` and looks its table up with a rule `fwmark v/0xf00`.  A WAN
takes its number from `mwan.c`, a client from `find_iface` in `vpnrouting.sh`,
and a WireGuard unit writes its port.
-/

namespace Tomato64.RoutingMarks

open Chains List Scan Shared Text
open Wireguard

/-- Those who route by the mark.  WANs and clients are numbered from one. -/
inductive User where
  | wan (index : Fin 4)
  | openvpn (index : Fin 3)
  | wireguard (unit : Fin wgInterfaceMax)
deriving DecidableEq

/-- The marks of `client1`, `client2` and `client3`. -/
def findIface (index : Fin 3) : Bytes :=
  match index.val with
  | 0 => bytes "2304"
  | 1 => bytes "2560"
  | _ => bytes "2816"

variable (nvram : Nvram)

/-- The value in front of `/0xf00` in the rules of a user. -/
def User.markText : User → Bytes
  | .wan index =>
    bytes "0x" ++ (decimal (index.val + 1) ++ bytes "00")
  | .openvpn index => findIface index
  | .wireguard unit => wgSetFwmark nvram unit

/-- A number in any base, the way `ip` and `iptables` read one. -/
def readMark (text : Bytes) : Option ℕ :=
  let base :=
    if startsHexMark text then 16
    else if text.head? = some (ascii '0') then 8
    else 10
  let digits := text.drop (markLength base text)
  if digits ≠ [] ∧ ∀ char ∈ digits, isDigitOf base char = true then
    some (Scan.valueOf base digits)
  else none

def User.markNumber (user : User) : ℕ :=
  (readMark (user.markText nvram)).getD 0

def User.mark (user : User) : Mark :=
  BitVec.ofNat 32 (user.markNumber nvram)

def routingMask : Mark := 0xf00#32

/-- `ip rule add fwmark v/0xf00` -/
def ruleMatches (value mark : Mark) : Bool :=
  (value ^^^ mark) &&& routingMask = 0#32

/-- What the users of the four bits and those of the other bits rely on. -/
structure Disciplined (nvram : Nvram) (active : List User) : Prop where
  nonzero : ∀ user ∈ active, user.mark nvram &&& routingMask ≠ 0#32
  distinct : ∀ left ∈ active, ∀ right ∈ active, left ≠ right →
    left.mark nvram &&& routingMask ≠ right.mark nvram &&& routingMask
  apart : ∀ left ∈ active, ∀ right ∈ active, left ≠ right → ∀ mark,
    ruleMatches (right.mark nvram)
      (setMark (left.mark nvram) routingMask mark) = false
  kept : ∀ user ∈ active, ∀ mark,
    setMark (user.mark nvram) routingMask mark &&& ~~~routingMask =
      mark &&& ~~~routingMask

/-! ## The four bits as a number -/

variable (number : ℕ)

def slotOf : ℕ :=
  number / 256 % 16

theorem land_routingMask : number &&& 0xf00 = 256 * slotOf number := by
  apply Nat.eq_of_testBit_eq
  intro bit
  have hmask : (0xf00 : ℕ) = (2 ^ 4 - 1) <<< 8 := by decide
  have hslot : 256 * slotOf number = (number >>> 8 % 2 ^ 4) <<< 8 := by
    simp only [slotOf, Nat.shiftLeft_eq, Nat.shiftRight_eq_div_pow,
      Nat.reducePow, Nat.mul_comm]
  rw [hslot, hmask, Nat.testBit_and, Nat.testBit_shiftLeft,
    Nat.testBit_shiftLeft, Nat.testBit_two_pow_sub_one,
    Nat.testBit_mod_two_pow, Nat.testBit_shiftRight]
  by_cases hlow : 8 ≤ bit
  · have hbit : 8 + (bit - 8) = bit := by omega
    simp [hlow, hbit, Bool.and_comm]
  · simp [hlow]

theorem ofNat_and_routingMask :
    BitVec.ofNat 32 number &&& routingMask =
      BitVec.ofNat 32 (256 * slotOf number) := by
  rw [← land_routingMask, BitVec.ofNat_and, routingMask]

theorem ofNat_injective {left right : ℕ} (hleft : left < 2 ^ 32)
    (hright : right < 2 ^ 32) :
    BitVec.ofNat 32 left = BitVec.ofNat 32 right ↔ left = right := by
  rw [← BitVec.toNat_inj, BitVec.toNat_ofNat, BitVec.toNat_ofNat,
    Nat.mod_eq_of_lt hleft, Nat.mod_eq_of_lt hright]

theorem slotOf_lt : slotOf number < 16 :=
  Nat.mod_lt _ (by decide)

theorem masked_eq_iff (left right : ℕ) :
    BitVec.ofNat 32 left &&& routingMask =
        BitVec.ofNat 32 right &&& routingMask ↔ slotOf left = slotOf right := by
  have hleft := slotOf_lt left
  have hright := slotOf_lt right
  rw [ofNat_and_routingMask, ofNat_and_routingMask,
    ofNat_injective (by omega) (by omega)]
  omega

theorem masked_eq_zero_iff :
    BitVec.ofNat 32 number &&& routingMask = 0#32 ↔ slotOf number = 0 := by
  have hslot := slotOf_lt number
  rw [ofNat_and_routingMask, ofNat_injective (by omega) (by decide)]
  omega

theorem masked_eq_self_iff {number : ℕ} (hnumber : number < 2 ^ 32) :
    BitVec.ofNat 32 number &&& routingMask = BitVec.ofNat 32 number ↔
      number = 256 * slotOf number := by
  have hslot := slotOf_lt number
  rw [ofNat_and_routingMask, ofNat_injective (by omega) hnumber, eq_comm]

/-- A rule matches the marks that agree with its value on the four bits. -/
theorem ruleMatches_iff (value mark : Mark) :
    ruleMatches value mark = true ↔
      value &&& routingMask = mark &&& routingMask := by
  have hxor : (value ^^^ mark) &&& routingMask =
      (value &&& routingMask) ^^^ (mark &&& routingMask) := by
    apply BitVec.eq_of_getLsbD_eq
    intro bit hbit
    simp only [BitVec.getLsbD_and, BitVec.getLsbD_xor]
    cases routingMask.getLsbD bit <;> simp
  rw [ruleMatches, decide_eq_true_iff, hxor, BitVec.xor_eq_zero_iff]

/-- The discipline in terms of the numbers: each one is its slot and nothing
else, and no two slots are the same. -/
theorem disciplined_iff_slots {nvram : Nvram} {active : List User}
    (hsmall : ∀ user ∈ active, user.markNumber nvram < 2 ^ 32) :
    Disciplined nvram active ↔
      (∀ user ∈ active, slotOf (user.markNumber nvram) ≠ 0 ∧
        user.markNumber nvram = 256 * slotOf (user.markNumber nvram)) ∧
      ∀ left ∈ active, ∀ right ∈ active, left ≠ right →
        slotOf (left.markNumber nvram) ≠ slotOf (right.markNumber nvram) := by
  constructor
  · intro hdisciplined
    refine ⟨fun user huser => ⟨?_, ?_⟩, fun left hleft right hright hne => ?_⟩
    · have hnonzero := hdisciplined.nonzero user huser
      rwa [User.mark, ne_eq, masked_eq_zero_iff] at hnonzero
    · have hkept := (setMark_keeps_iff _ _).mp (hdisciplined.kept user huser)
      exact (masked_eq_self_iff (hsmall user huser)).mp hkept
    · have hdistinct := hdisciplined.distinct left hleft right hright hne
      rwa [User.mark, User.mark, ne_eq, masked_eq_iff] at hdistinct
  · rintro ⟨hown, hslots⟩
    have hdistinct : ∀ left ∈ active, ∀ right ∈ active, left ≠ right →
        left.mark nvram &&& routingMask ≠
          right.mark nvram &&& routingMask := by
      intro left hleft right hright hne
      rw [User.mark, User.mark, ne_eq, masked_eq_iff]
      exact hslots left hleft right hright hne
    refine ⟨fun user huser => ?_, hdistinct,
      fun left hleft right hright hne mark => ?_, fun user huser => ?_⟩
    · rw [User.mark, ne_eq, masked_eq_zero_iff]
      exact (hown user huser).1
    · rw [Bool.eq_false_iff, ne_eq, ruleMatches_iff, setMark_and_mask]
      exact hdistinct right hright left hleft hne.symm
    · rw [setMark_keeps_iff]
      exact (masked_eq_self_iff (hsmall user huser)).mpr (hown user huser).2

/-! ## The numbers of the users -/

theorem markNumber_wan (index : Fin 4) :
    (User.wan index).markNumber nvram = 256 * (index.val + 1) := by
  have hindex : index.val + 1 < 10 := by omega
  have hall : ∀ value < 4,
      (readMark (bytes "0x" ++ ([digitChar (value + 1)] ++ bytes "00"))).getD 0 =
        256 * (value + 1) := by decide
  rw [User.markNumber, User.markText, decimal, if_pos hindex]
  exact hall index.val index.isLt

theorem markNumber_openvpn (index : Fin 3) :
    (User.openvpn index).markNumber nvram = 256 * (index.val + 9) := by
  have hfirst : readMark (bytes "2304") = some 2304 := by decide
  have hsecond : readMark (bytes "2560") = some 2560 := by decide
  have hthird : readMark (bytes "2816") = some 2816 := by decide
  match index with
  | ⟨0, _⟩ => simp [User.markNumber, User.markText, findIface, hfirst]
  | ⟨1, _⟩ => simp [User.markNumber, User.markText, findIface, hsecond]
  | ⟨2, _⟩ => simp [User.markNumber, User.markText, findIface, hthird]

/-- A number without a leading zero is read in base ten. -/
theorem readMark_decimal {number : ℕ} (hnumber : number ≠ 0) :
    readMark (decimal number) = some number := by
  obtain ⟨first, others, hdecimal, hfirst⟩ := exists_decimal_eq_cons number
  have hzero : first ≠ 48 := fun hzero => hnumber (hfirst hzero)
  have hhex : startsHexMark (decimal number) = false := by
    rw [hdecimal, startsHexMark.eq_def]
    split
    · next heq => exact absurd (List.cons.inj heq).1 hzero
    · rfl
  have hhead : (decimal number).head? ≠ some (ascii '0') := by
    rw [hdecimal]
    simpa [ascii] using hzero
  have hdigits : ∀ char ∈ decimal number, isDigitOf 10 char = true := by
    intro char hchar
    rw [isDigitOf_ten]
    exact isDigit_of_mem_decimal number char hchar
  have hne : decimal number ≠ [] := by
    rw [hdecimal]
    exact cons_ne_nil _ _
  rw [readMark]
  simp only [hhex, hhead, markLength, Bool.false_eq_true, and_false, if_false,
    drop_zero]
  rw [if_pos ⟨hne, hdigits⟩, valueOf_decimal]

variable {unit : Fin wgInterfaceMax}

theorem markNumber_wireguard {nvram : Nvram} (hmark : ¬ HasFwmark nvram unit) :
    (User.wireguard unit).markNumber nvram = portNumber nvram unit := by
  have hport := one_le_portNumber nvram unit
  rw [User.markNumber, User.markText, wgSetFwmark_of_not_hasFwmark hmark,
    wgSetPort, readMark_decimal (by omega), Option.getD_some]

def User.fixedSlot : User → Option ℕ
  | .wan index => some (index.val + 1)
  | .openvpn index => some (index.val + 9)
  | .wireguard _ => none

variable {slot : ℕ}

theorem markNumber_of_fixedSlot {user : User}
    (hslot : user.fixedSlot = some slot) (nvram : Nvram) :
    user.markNumber nvram = 256 * slot ∧ 1 ≤ slot ∧ slot ≤ 15 := by
  cases user with
  | wan index =>
    cases hslot
    exact ⟨markNumber_wan nvram index, by omega, by omega⟩
  | openvpn index =>
    cases hslot
    exact ⟨markNumber_openvpn nvram index, by omega, by omega⟩
  | wireguard unit => cases hslot

theorem eq_of_fixedSlot {left right : User} (hleft : left.fixedSlot = some slot)
    (hright : right.fixedSlot = some slot) : left = right := by
  cases left <;> cases right <;>
    simp only [User.fixedSlot, Option.some.injEq, reduceCtorEq] at hleft hright
  · exact congrArg User.wan (Fin.ext (by omega))
  · omega
  · omega
  · exact congrArg User.openvpn (Fin.ext (by omega))

/-! ## When the marks keep the discipline -/

/-- The setting of the port of a unit is 256 times the number of a slot that
no other active user has. -/
structure PortFits (nvram : Nvram) (active : List User)
    (unit : Fin wgInterfaceMax) (slot : ℕ) : Prop where
  port : strtol (getNVRAMVar nvram unit "port") =
    some (((256 * slot : ℕ) : ℤ), [])
  low : 1 ≤ slot
  high : slot ≤ 15
  fixed : ∀ user ∈ active, user.fixedSlot ≠ some slot
  wireguard : ∀ other, .wireguard other ∈ active → other ≠ unit →
    strtol (getNVRAMVar nvram other "port") ≠
      strtol (getNVRAMVar nvram unit "port")

/-- Every active WireGuard unit has such a port. -/
def PortsFit (active : List User) : Prop :=
  ∀ unit, .wireguard unit ∈ active → ∃ slot, PortFits nvram active unit slot

theorem PortFits.portNumber_eq {nvram : Nvram} {active : List User}
    (hfits : PortFits nvram active unit slot) :
    portNumber nvram unit = 256 * slot := by
  have hlow := hfits.low
  have hhigh := hfits.high
  exact portNumber_of_strtol (by omega) (by omega) hfits.port

theorem slotOf_mul (hslot : slot ≤ 15) : slotOf (256 * slot) = slot := by
  rw [slotOf]
  omega

/-- No default port is a slot and nothing else. -/
theorem strtol_of_slot {nvram : Nvram}
    (hslot : slot ≤ 15) (hport : portNumber nvram unit = 256 * slot) :
    strtol (getNVRAMVar nvram unit "port") =
      some (((256 * slot : ℕ) : ℤ), []) := by
  rcases Wireguard.portNumber_eq nvram unit with
    ⟨port, -, -, heq, hstrtol⟩ | hdefault
  · rw [hstrtol, ← heq, hport]
  · rw [hport, defaultPort] at hdefault
    omega

section
variable {nvram : Nvram} {active : List User}
variable (hmarks : ∀ unit, .wireguard unit ∈ active → ¬ HasFwmark nvram unit)
include hmarks

theorem markNumber_lt {user : User} (huser : user ∈ active) :
    user.markNumber nvram < 2 ^ 32 := by
  cases hslot : user.fixedSlot with
  | some slot =>
    obtain ⟨hnumber, -, hhigh⟩ := markNumber_of_fixedSlot hslot nvram
    omega
  | none =>
    cases user with
    | wan index => cases hslot
    | openvpn index => cases hslot
    | wireguard unit =>
      have hport := portNumber_le nvram unit
      rw [markNumber_wireguard (hmarks unit huser)]
      omega

theorem exists_slot (hfit : PortsFit nvram active) {user : User}
    (huser : user ∈ active) :
    ∃ slot, user.markNumber nvram = 256 * slot ∧ 1 ≤ slot ∧ slot ≤ 15 ∧
      (user.fixedSlot = some slot ∨
        ∃ unit, user = .wireguard unit ∧ PortFits nvram active unit slot) := by
  cases hslot : user.fixedSlot with
  | some slot =>
    obtain ⟨hnumber, hlow, hhigh⟩ := markNumber_of_fixedSlot hslot nvram
    exact ⟨slot, hnumber, hlow, hhigh, .inl rfl⟩
  | none =>
    cases user with
    | wan index => cases hslot
    | openvpn index => cases hslot
    | wireguard unit =>
      obtain ⟨slot, hfits⟩ := hfit unit huser
      have hnumber := markNumber_wireguard (hmarks unit huser)
      rw [hfits.portNumber_eq] at hnumber
      exact ⟨slot, hnumber, hfits.low, hfits.high, .inr ⟨unit, rfl, hfits⟩⟩

theorem disciplined_of_portsFit (hfit : PortsFit nvram active) :
    Disciplined nvram active := by
  rw [disciplined_iff_slots fun user huser => markNumber_lt hmarks huser]
  refine ⟨fun user huser => ?_, fun left hleft right hright hne heq => ?_⟩
  · obtain ⟨slot, hnumber, hlow, hhigh, -⟩ := exists_slot hmarks hfit huser
    rw [hnumber, slotOf_mul hhigh]
    exact ⟨by omega, rfl⟩
  obtain ⟨slot, hnumber, -, hhigh, hkind⟩ := exists_slot hmarks hfit hleft
  obtain ⟨other, hother, -, hotherHigh, hotherKind⟩ :=
    exists_slot hmarks hfit hright
  rw [hnumber, hother, slotOf_mul hhigh, slotOf_mul hotherHigh] at heq
  subst heq
  -- Two fixed slots differ, and a port fits next to both kinds.
  rcases hkind with hfixed | ⟨unit, rfl, hfits⟩
  · rcases hotherKind with hotherFixed | ⟨unit, rfl, hfits⟩
    · exact hne (eq_of_fixedSlot hfixed hotherFixed)
    · exact hfits.fixed left hleft hfixed
  rcases hotherKind with hotherFixed | ⟨otherUnit, rfl, hotherFits⟩
  · exact hfits.fixed right hright hotherFixed
  · refine hfits.wireguard otherUnit hright (fun hunit => hne ?_) ?_
    · rw [hunit]
    · rw [hotherFits.port, hfits.port]

theorem portsFit_of_disciplined (hdisciplined : Disciplined nvram active) :
    PortsFit nvram active := by
  rw [disciplined_iff_slots fun user huser => markNumber_lt hmarks huser]
    at hdisciplined
  obtain ⟨hown, hslots⟩ := hdisciplined
  intro unit hunit
  obtain ⟨hnonzero, hnumber⟩ := hown _ hunit
  have hdistinct := fun user huser => hslots user huser _ hunit
  rw [markNumber_wireguard (hmarks unit hunit)] at hnonzero hnumber hdistinct
  have hhigh := slotOf_lt (portNumber nvram unit)
  have hport := strtol_of_slot (by omega) hnumber
  refine ⟨slotOf (portNumber nvram unit), hport, by omega, by omega,
    fun user huser hfixed => ?_, fun other hother hne heq => ?_⟩
  · have hne : user ≠ .wireguard unit := by
      rintro rfl
      cases hfixed
    obtain ⟨huserNumber, -, huserHigh⟩ := markNumber_of_fixedSlot hfixed nvram
    apply hdistinct user huser hne
    rw [huserNumber, slotOf_mul huserHigh]
  · rw [hport] at heq
    have hotherNumber := portNumber_of_strtol (by omega) (by omega) heq
    apply hdistinct (.wireguard other) hother (fun hsame => hne ?_)
    · rw [markNumber_wireguard (hmarks other hother), hotherNumber, ← hnumber]
    · exact User.wireguard.inj hsame

end

/-- The marks of the active users keep the discipline if and only if the port
of every active WireGuard unit is set to a slot of its own. -/
theorem disciplined_iff (nvram : Nvram) (active : List User)
    (hmarks : ∀ unit, .wireguard unit ∈ active → ¬ HasFwmark nvram unit) :
    Disciplined nvram active ↔ PortsFit nvram active :=
  ⟨portsFit_of_disciplined hmarks, disciplined_of_portsFit hmarks⟩

/-- A WireGuard unit at port 3072, which is `0xc00`, between a WAN and a
client. -/
theorem disciplined_iff_threeUsers :
    Disciplined (fun _ => bytes "3072")
      [.wan ⟨0, by decide⟩, .openvpn ⟨1, by decide⟩,
        .wireguard ⟨0, by decide⟩] := by
  refine (disciplined_iff _ _ ?_).mpr ?_
  · intro unit hunit hmark
    exact absurd hmark.1 (by simp [getNVRAMVar, bytes])
  intro unit hunit
  have hport : strtol (bytes "3072") = some (3072, []) := by decide
  refine ⟨12, hport, by decide, by decide, ?_, fun other hother hne => ?_⟩
  · simp [User.fixedSlot]
  · simp only [mem_cons, reduceCtorEq, User.wireguard.injEq,
      not_mem_nil, or_false, false_or] at hunit hother
    exact absurd (hother.trans hunit.symm) hne

/-- The first WireGuard unit at its default port next to the second OpenVPN
client: both have the mark `0xa00`. -/
theorem not_disciplined_default :
    ¬ Disciplined (fun _ => [])
      [.wireguard ⟨0, by decide⟩, .openvpn ⟨1, by decide⟩] := by
  intro hdisciplined
  have hmarks : ∀ unit, ¬ HasFwmark (fun _ => []) unit := by
    intro unit hmark
    exact absurd hmark.1 (by simp [getNVRAMVar])
  have hfit := portsFit_of_disciplined (fun unit _ => hmarks unit) hdisciplined
  obtain ⟨slot, hfits⟩ := hfit ⟨0, by decide⟩ (mem_cons_self ..)
  have hport := hfits.port
  rw [getNVRAMVar, show strtol [] = none by decide] at hport
  cases hport

end Tomato64.RoutingMarks
