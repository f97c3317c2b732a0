import Mathlib.Tactic.IntervalCases
import Tomato64.Rc.Restrictions
import Tomato64.Shared.Misc

/-!
# The marks of the QoS rules

`ipt_qos` goes through the rules of `qos_orules`, notes the class of each one
in a mask, and writes a line that marks its connections.  The low digit of a
mark is the number of the class, from 1 on; above it stands a group for rules
that end after some bytes.  In the end the mask is stored in `qos_inuse`.
-/

namespace Tomato64.Qos

open List Scan Shared Text
open Tomato64.Restrictions (Families iptAddr iptNdpi)

/-- The fields of a rule that decide about its mark. -/
structure Rule where
  addrType : Bytes
  addr : Bytes
  ndpi : Bytes
  bcount : Bytes
  classPrio : Bytes
deriving DecidableEq

/-- `vstrsep(p, "<", ...)` with the ten fields that a rule has at least. -/
def readRule (text : Bytes) : Option Rule :=
  match text.splitOn (ascii '<') with
  | addrType :: addr :: _ :: _ :: _ :: ndpi :: bcount :: _ :: classPrio ::
      _ :: _ => some ⟨addrType, addr, ndpi, bcount, classPrio⟩
  | _ => none

def disabledClassificationRules : Bytes :=
  bytes "0<<-2<a<<0<<<<0<Default"

def rulesText (nvram : Nvram) : Bytes :=
  if nvram.int (bytes "qos_classify") = 0 then disabledClassificationRules
  else nvram (bytes "qos_orules")

variable (env : Restrictions.Env)

/-- The address of a rule is of use in one of the tables. -/
def Rule.hasAddress (rule : Rule) : Bool :=
  if rule.addrType.head? = some (ascii '1') ∨
      rule.addrType.head? = some (ascii '2') then
    !(iptAddr env rule.addr ⟨true, env.ipv6Enabled⟩
      (!env.ipv6Enabled)).isNone
  else true

/-- The number of kilobytes after which a rule ends. -/
def sizeLimit (bcount : Bytes) : Option UInt64 :=
  let rest :=
    match scanNumber 10 bcount.length bcount with
    | some (_, rest) => rest
    | none => bcount
  match rest with
  | _ :: char :: text => some (strtoul (char :: text))
  | _ => none

/-! ## The loop over the rules -/

/-- `inuse`, `sizegroup` and `prev_max`, and the marks written so far. -/
structure Marking where
  inuse : BitVec 32
  sizegroup : ℕ
  prevMax : UInt64
  marks : List (BitVec 32)

variable (marking : Marking)

/-- The group of a rule, and `sizegroup` and `prev_max` behind it. -/
def groupOf (rule : Rule) : ℕ × ℕ × UInt64 :=
  match sizeLimit rule.bcount with
  | some limit =>
    if limit ≠ marking.prevMax ∧ marking.sizegroup < 255 then
      (marking.sizegroup + 1, marking.sizegroup + 1, limit)
    else (marking.sizegroup, marking.sizegroup, marking.prevMax)
  | none => (0, marking.sizegroup, marking.prevMax)

def classBit (classNum : ℕ) : BitVec 32 :=
  1#32 <<< classNum

/-- A mark of a class, counted from 0, and a group. -/
def markOf (classNum group : ℕ) : BitVec 32 :=
  BitVec.ofNat 32 (classNum + 1) ||| BitVec.ofNat 32 group <<< 12

/-- The part of the round behind the mask, for a class and the text that
`ipt_ndpi` has put into `app`. -/
def writeMark (rule : Rule) (classNum : ℕ) (app : Bytes) : Marking :=
  let (flag, sizegroup, prevMax) := groupOf marking rule
  let group := if 0 < sizegroup ∧ flag = 0 then 255 else flag
  { inuse := marking.inuse
    sizegroup := if app ≠ [] ∧ sizegroup = 0 then sizegroup + 1 else sizegroup
    prevMax
    marks := marking.marks ++ [markOf classNum group] }

/-- The round of the loop over the rules. -/
def markRule (text : Bytes) : Marking :=
  match readRule text with
  | none => marking
  | some rule =>
    let classNum := atoi rule.classPrio
    if classNum < 0 ∨ 9 < classNum then marking
    else
      let marking :=
        { marking with inuse := marking.inuse ||| classBit classNum.toNat }
      if rule.hasAddress env then
        match iptNdpi env rule.ndpi with
        | none => marking
        | some app => writeMark marking rule classNum.toNat app
      else marking

/-- `qos_default`, or 3 in its place. -/
def defaultClass (nvram : Nvram) : ℕ :=
  let value := nvram.int (bytes "qos_default")
  if value < 0 ∨ 9 < value then 3 else value.toNat

/-- What `ipt_qos` stores in `qos_inuse`, and the marks of its lines.  The loops
over the WANs leave `i` behind the last one, and this is the bit that is set
for the default class. -/
def iptQos (nvram : Nvram) : Option (BitVec 32 × List (BitVec 32)) :=
  if nvram.int (bytes "qos_enable") = 0 then none
  else
    let marking :=
      ((rulesText nvram).splitOn (ascii '>')).foldl (markRule env)
        ⟨0#32, 0, 0, []⟩
    let group := if 0 < marking.sizegroup then 255 else 0
    some (marking.inuse ||| (classBit (mwanActiveNum nvram + 1) ||| 1#32),
      marking.marks ++ [markOf (defaultClass nvram) group])

/-! ## What the mask has to hold -/

/-- A class has a rule that is complete and enabled. -/
def Used (nvram : Nvram) (classNum : ℕ) : Prop :=
  classNum ≤ 9 ∧ ∃ text ∈ (rulesText nvram).splitOn (ascii '>'),
    ∃ rule, readRule text = some rule ∧ atoi rule.classPrio = classNum

/-- The mask holds the highest class, the default class and the classes with a
rule, and nothing else. -/
def Exact (nvram : Nvram) (inuse : BitVec 32) : Prop :=
  ∀ bit, inuse.getLsbD bit = true ↔
    bit = 0 ∨ bit = defaultClass nvram ∨ Used nvram bit

section
variable {env : Restrictions.Env} {nvram : Nvram}

theorem getLsbD_classBit {classNum : ℕ} (hclass : classNum < 32) (bit : ℕ) :
    (classBit classNum).getLsbD bit = true ↔ bit = classNum := by
  rw [classBit, BitVec.getLsbD_shiftLeft, BitVec.getLsbD_one]
  simp only [Bool.and_eq_true, Bool.not_eq_true', decide_eq_true_eq,
    decide_eq_false_iff_not]
  omega

/-- The class of a rule, if it is complete and enabled. -/
def ruleClass (text : Bytes) : Option ℕ :=
  (readRule text).bind fun rule =>
    if atoi rule.classPrio < 0 ∨ 9 < atoi rule.classPrio then none
    else some (atoi rule.classPrio).toNat

theorem ruleClass_eq_some_iff {text : Bytes} {classNum : ℕ} :
    ruleClass text = some classNum ↔ classNum ≤ 9 ∧
      ∃ rule, readRule text = some rule ∧ atoi rule.classPrio = classNum := by
  rw [ruleClass, Option.bind_eq_some_iff]
  constructor
  · rintro ⟨rule, hrule, hclass⟩
    split_ifs at hclass with hrange
    rw [Option.some.injEq] at hclass
    exact ⟨by omega, rule, hrule, by omega⟩
  · rintro ⟨hle, rule, hrule, hclass⟩
    refine ⟨rule, hrule, ?_⟩
    rw [if_neg (by omega), hclass, Int.toNat_natCast]

/-- A round adds the class of its rule to the mask. -/
theorem getLsbD_markRule (text : Bytes) (bit : ℕ) :
    (markRule env marking text).inuse.getLsbD bit = true ↔
      marking.inuse.getLsbD bit = true ∨ ruleClass text = some bit := by
  rw [markRule, ruleClass]
  cases readRule text with
  | none => simp
  | some rule =>
    dsimp only [Option.bind_some]
    by_cases hrange : atoi rule.classPrio < 0 ∨ 9 < atoi rule.classPrio
    · simp [hrange]
    rw [if_neg hrange, if_neg hrange, Option.some.injEq]
    have hbit : (marking.inuse |||
        classBit (atoi rule.classPrio).toNat).getLsbD bit = true ↔
        marking.inuse.getLsbD bit = true ∨
          (atoi rule.classPrio).toNat = bit := by
      rw [BitVec.getLsbD_or, Bool.or_eq_true,
        getLsbD_classBit (by omega), @eq_comm ℕ bit]
    split_ifs
    · cases iptNdpi env rule.ndpi with
      | none => exact hbit
      | some app => exact hbit
    · exact hbit

/-- The loop collects the classes of all rules. -/
theorem getLsbD_foldl_markRule (texts : List Bytes) (marking : Marking)
    (bit : ℕ) :
    (texts.foldl (markRule env) marking).inuse.getLsbD bit = true ↔
      marking.inuse.getLsbD bit = true ∨
        ∃ text ∈ texts, ruleClass text = some bit := by
  induction texts generalizing marking with
  | nil => simp
  | cons text texts ih =>
    rw [foldl_cons, ih, getLsbD_markRule, exists_mem_cons_iff, or_assoc]

theorem used_iff {bit : ℕ} : Used nvram bit ↔
    ∃ text ∈ (rulesText nvram).splitOn (ascii '>'),
      ruleClass text = some bit := by
  simp only [ruleClass_eq_some_iff]
  constructor
  · rintro ⟨hle, text, htext, hrule⟩
    exact ⟨text, htext, hle, hrule⟩
  · rintro ⟨text, htext, hle, hrule⟩
    exact ⟨hle, text, htext, hrule⟩

theorem mwanActiveNum_le (nvram : Nvram) : mwanActiveNum nvram ≤ 4 := by
  have hlength : (wanUnits nvram).length ≤ 4 := by
    rw [wanUnits, length_map, length_range, mwanNum]
    split_ifs with hrange
    · decide
    · rw [mwanMax] at hrange
      omega
  exact (takeWhile_sublist _).length_le.trans hlength

/-- The bits that are stored. -/
theorem getLsbD_iptQos {inuse : BitVec 32} {marks : List (BitVec 32)}
    (hstored : iptQos env nvram = some (inuse, marks)) (bit : ℕ) :
    inuse.getLsbD bit = true ↔
      bit = 0 ∨ bit = mwanActiveNum nvram + 1 ∨ Used nvram bit := by
  rw [iptQos] at hstored
  split_ifs at hstored with henable
  simp only [Option.some.injEq, Prod.mk.injEq] at hstored
  have hnum := mwanActiveNum_le nvram
  rw [← hstored.1, BitVec.getLsbD_or, BitVec.getLsbD_or, Bool.or_eq_true,
    Bool.or_eq_true, getLsbD_foldl_markRule, getLsbD_classBit (by omega),
    used_iff, BitVec.getLsbD_one]
  simp only [BitVec.getLsbD_zero, Bool.false_eq_true, false_or,
    Bool.and_eq_true, decide_eq_true_eq]
  constructor
  · rintro (hrule | hwans | ⟨-, hzero⟩)
    · exact .inr (.inr hrule)
    · exact .inr (.inl hwans)
    · exact .inl hzero
  · rintro (hzero | hwans | hrule)
    · exact .inr (.inr ⟨by decide, hzero⟩)
    · exact .inr (.inl hwans)
    · exact .inl hrule

end

/-- The mask that `ipt_qos` stores is exact if QoS is off, if the default class
is the one behind the number of WANs, or if this class has a rule and the
default class is the highest one or has a rule; and in no other case. -/
theorem iptQos_exact_iff (env : Restrictions.Env) (nvram : Nvram) :
    (∀ inuse marks, iptQos env nvram = some (inuse, marks) →
      Exact nvram inuse) ↔
      nvram.int (bytes "qos_enable") = 0 ∨
        defaultClass nvram = mwanActiveNum nvram + 1 ∨
        Used nvram (mwanActiveNum nvram + 1) ∧
          (defaultClass nvram = 0 ∨ Used nvram (defaultClass nvram)) := by
  by_cases henable : nvram.int (bytes "qos_enable") = 0
  · have hnone : iptQos env nvram = none := if_pos henable
    refine iff_of_true (fun inuse marks hstored => ?_) (.inl henable)
    exact absurd (hstored.symm.trans hnone) (Option.some_ne_none _)
  obtain ⟨inuse, marks, hstored⟩ :
      ∃ inuse marks, iptQos env nvram = some (inuse, marks) :=
    ⟨_, _, if_neg henable⟩
  have hexact : (∀ inuse marks, iptQos env nvram = some (inuse, marks) →
      Exact nvram inuse) ↔ Exact nvram inuse := by
    constructor
    · intro hall
      exact hall inuse marks hstored
    · intro hinuse other otherMarks hother
      rw [hstored, Option.some.injEq, Prod.mk.injEq] at hother
      exact hother.1 ▸ hinuse
  rw [hexact, or_iff_right henable]
  constructor
  · intro hinuse
    have hwans := (hinuse (mwanActiveNum nvram + 1)).mp
      ((getLsbD_iptQos hstored _).mpr (.inr (.inl rfl)))
    have hdefault := (getLsbD_iptQos hstored _).mp
      ((hinuse (defaultClass nvram)).mpr (.inr (.inl rfl)))
    rcases hwans with hzero | hsame | hused
    · exact absurd hzero (Nat.succ_ne_zero _)
    · exact .inl hsame.symm
    · rcases hdefault with hzero | hsame | hdefault
      · exact .inr ⟨hused, .inl hzero⟩
      · exact .inl hsame
      · exact .inr ⟨hused, .inr hdefault⟩
  · intro hcase bit
    rw [getLsbD_iptQos hstored]
    rcases hcase with hsame | ⟨hused, hdefault⟩
    · rw [hsame]
    constructor
    · rintro (hzero | rfl | hbit)
      · exact .inl hzero
      · exact .inr (.inr hused)
      · exact .inr (.inr hbit)
    · rintro (hzero | rfl | hbit)
      · exact .inl hzero
      · rcases hdefault with hzero | hused
        · exact .inl hzero
        · exact .inr (.inr hused)
      · exact .inr (.inr hbit)

/-- One WAN, no rules, and class 3 for everything else. -/
def oneWan (key : Bytes) : Bytes :=
  if key = bytes "qos_enable" ∨ key = bytes "qos_classify" ∨
      key = bytes "mwan_num" then bytes "1"
  else if key = bytes "wan_proto" then bytes "dhcp"
  else if key = bytes "qos_default" then bytes "3"
  else []

/-- No name can be looked up and there is no IPv6. -/
def plainSystem : Restrictions.Env :=
  ⟨[], false, none, fun _ _ => ⟨false, false⟩⟩

/-- The bit of class 2 is set in place of the bit of class 3. -/
theorem iptQos_not_exact_oneWan :
    defaultClass oneWan = 3 ∧
      ∃ inuse marks, iptQos plainSystem oneWan = some (inuse, marks) ∧
        inuse = 0b101#32 ∧ ¬ Exact oneWan inuse := by
  have hdefault : defaultClass oneWan = 3 := by decide
  refine ⟨hdefault, 0b101#32, [markOf 3 0], by decide, rfl, ?_⟩
  intro hexact
  have hbit := (hexact 3).mpr (.inr (.inl hdefault.symm))
  exact absurd hbit (by decide)

end Tomato64.Qos
