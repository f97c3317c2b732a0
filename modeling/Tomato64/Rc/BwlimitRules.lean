import Tomato64.Quota.Rules
import Tomato64.Rc.Bwlimit

/-!
# Marks and classes of the bandwidth limiter

The mark that `ipt_bwlimit` sets for a direction of a rule is of use only with a
class and a filter in the script of `start_bwlimit`.  The two loops agree about
the records in use and their numbers.  They differ in what stands in for the
ceiling of an upload.
-/

namespace Tomato64.Bwlimit

open List Run Shared Split Text

inductive Direction where
  | download
  | upload
deriving DecidableEq

def Direction.hook : Direction → Hook
  | .download => .postrouting
  | .upload => .prerouting

def Direction.device : Direction → Device
  | .download => .bridge 0
  | .upload => .wan

variable (record : Record)

def Record.rate : Direction → Bytes
  | .download => record.dlrate
  | .upload => record.ulrate

def Record.ceil : Direction → Bytes
  | .download => record.dlceil
  | .upload => record.ulceil

/-- The address of a record is taken for a MAC address. -/
def Record.IsMac : Prop :=
  ascii '-' ∉ record.ipaddr ∧ record.ipaddr.length = 17

def Marked (lines : List Line) (direction : Direction) (mark : ℕ) : Prop :=
  ∃ line ∈ lines, line.hook = direction.hook ∧
    line.target = .setMark mark ruleMask

def HasClass (commands : List Command) (direction : Direction)
    (rate ceil : Bytes) (selector : Selector) : Prop :=
  ∃ classid prio filterPrio, Command.branch direction.device classid rate ceil
    prio filterPrio selector ∈ commands

/-- The lines and the commands for a record fit together.  The downloads of a
MAC address are matched in another way. -/
structure Corresponds (record : Record) (iSeq : ℕ) (lines : List Line)
    (commands : List Command) : Prop where
  marked_iff : ∀ direction, ¬ (direction = .download ∧ record.IsMac) →
    (Marked lines direction (ruleMark iSeq) ↔
      ∃ rate ceil, HasClass commands direction rate ceil
        (.fwmark (ruleMark iSeq) ruleMask))
  rates : ∀ direction rate ceil selector,
    HasClass commands direction rate ceil selector →
      rate = record.rate direction ∧
        ceil = orElse (record.ceil direction) (record.rate direction)

/-- Both functions do their work, and what they write for each record in use
fits together. -/
def InStep (nvram : Nvram) : Prop :=
  ∃ rules script, iptBwlimit nvram .mangle = some rules ∧
    startBwlimit nvram = some script ∧
      rules.rules.length = script.rules.length ∧
      ∀ (index : ℕ) record, (records nvram)[index]? = some record →
        Corresponds record (index + 1) (rules.rules[index]?.getD [])
          (script.rules[index]?.getD [])

variable (bufSz : ℕ)

/-- The address of a record has room in a buffer. -/
def AddressFits (ipaddr : Bytes) : Prop :=
  ∀ front back, splitFirst (ascii '-') ipaddr = some (front, back) →
    ascii '.' ∉ back → FitsShort bufSz front

/-- An upload of a record has a ceiling of its own, or its rate is that of the
download. -/
def Record.OwnCeiling : Prop :=
  record.ulrate = [] ∨ record.ulceil ≠ [] ∨ record.dlrate = record.ulrate

/-! ## Addresses -/

theorem exists_addressChecker_iff {ipaddr : Bytes} {bufSz : ℕ} :
    (∃ result, addressChecker ipaddr bufSz = some result) ↔
      AddressFits bufSz ipaddr := by
  rw [addressChecker, AddressFits]
  cases hcut : splitFirst (ascii '-') ipaddr with
  | none =>
    constructor
    · intro _ front back hnone
      cases hnone
    · intro _
      split_ifs
      · exact ⟨_, rfl⟩
      · exact ⟨_, rfl⟩
  | some cut =>
    obtain ⟨front, back⟩ := cut
    dsimp only
    constructor
    · rintro ⟨result, hresult⟩ _ _ hsame hdot
      cases hsame
      rw [if_neg hdot] at hresult
      by_contra hfits
      rw [if_neg hfits] at hresult
      cases hresult
    · intro hfits
      split_ifs with hdot hshort
      · exact ⟨_, rfl⟩
      · exact ⟨_, rfl⟩
      · exact absurd (hfits front back rfl hdot) hshort

theorem AddressFits.mono {ipaddr : Bytes} {bufSz larger : ℕ}
    (hfits : AddressFits bufSz ipaddr) (hle : bufSz ≤ larger) :
    AddressFits larger ipaddr := by
  intro front back hcut hdot
  obtain ⟨hne, hlength⟩ := hfits front back hcut hdot
  exact ⟨hne, hlength.trans hle⟩

/-- A range in the short notation, `A.B.C.x-y`. -/
structure Shorthand where
  (a b c x y : Bytes)
  octets : ∀ text ∈ [a, b, c, x, y], text ≠ [] ∧ text.all isDigit

variable (short : Shorthand)

/-- What the two ends have in common, `A.B.C.`. -/
def Shorthand.network : Bytes :=
  intercalate [ascii '.'] [short.a, short.b, short.c] ++ [ascii '.']

def Shorthand.text : Bytes :=
  short.network ++ short.x ++ ascii '-' :: short.y

def Shorthand.range : Bytes :=
  short.network ++ short.x ++ ascii '-' :: (short.network ++ short.y)

/-- `address_checker` keeps to its buffer and finds its dot, and a range in the
short notation becomes the same long one in both functions. -/
def Expands (ipaddr : Bytes) : Prop :=
  (∃ result, addressChecker ipaddr bufSz = some result) ∧
    ∀ short : Shorthand, ipaddr = short.text →
      addressChecker ipaddr bufSz = some (.ipRange, short.range) ∧
        QuotaRules.quotaRangeExpand bufSz ipaddr = short.range

variable {short} in
theorem Shorthand.not_mem {text : Bytes} {char : Byte}
    (htext : text ∈ [short.a, short.b, short.c, short.x, short.y])
    (hchar : isDigit char = false) : char ∉ text := by
  intro hmem
  have hdigit := all_eq_true.mp (short.octets text htext).2 char hmem
  rw [hchar] at hdigit
  cases hdigit

theorem Shorthand.dash_not_mem : ascii '-' ∉ short.network ++ short.x := by
  have hdash : ∀ text ∈ [short.a, short.b, short.c, short.x, short.y],
      ascii '-' ∉ text := fun text htext => not_mem htext rfl
  simp [network, hdash, show ascii '-' ≠ ascii '.' by decide]

theorem Shorthand.dot_not_mem : ascii '.' ∉ short.x ∧ ascii '.' ∉ short.y :=
  ⟨short.not_mem (by simp) rfl, short.not_mem (by simp) rfl⟩

theorem Shorthand.throughLastDot_eq :
    throughLastDot (short.network ++ short.x) = short.network := by
  have hdot : ∀ char ∈ short.x.reverse, char ≠ ascii '.' := by
    intro char hchar hsame
    exact short.dot_not_mem.1 (hsame ▸ mem_reverse.mp hchar)
  rw [throughLastDot, reverse_append,
    dropWhile_append_of_pos (by simpa using hdot), network, reverse_append]
  simp

theorem Shorthand.addressChecker_text :
    addressChecker short.text bufSz =
      if FitsShort bufSz (short.network ++ short.x) then
        some (.ipRange, short.range.take (bufSz - 1))
      else none := by
  rw [addressChecker, text, splitFirst_append short.dash_not_mem]
  dsimp only
  rw [if_neg short.dot_not_mem.2, short.throughLastDot_eq, range,
    append_assoc _ (_ :: _), cons_append]

theorem Shorthand.quotaRangeExpand_text :
    QuotaRules.quotaRangeExpand bufSz short.text =
      short.range.take (bufSz - 1) := by
  have hfront : ∀ char ∈ short.network ++ short.x, decide (char ≠ 45) := by
    intro char hchar
    have hdash : char ≠ ascii '-' := by
      rintro rfl
      exact short.dash_not_mem hchar
    exact decide_eq_true hdash
  have hlow : short.text.takeWhile (· ≠ 45) = short.network ++ short.x := by
    rw [text, takeWhile_append_of_pos hfront]
    simp [ascii]
  have hhigh : (short.text.dropWhile (· ≠ 45)).drop 1 = short.y := by
    rw [text, dropWhile_append_of_pos hfront]
    simp [ascii]
  have hshort : ¬ (45 ∉ short.text ∨ 46 ∈ short.y ∨
      46 ∉ short.network ++ short.x) := by
    rintro (hdash | hdot | hdot)
    · exact hdash (by simp [text, ascii])
    · exact short.dot_not_mem.2 hdot
    · exact hdot (by simp [network, ascii])
  have hnetwork := short.throughLastDot_eq
  rw [QuotaRules.quotaRangeExpand, hlow, hhigh, if_neg hshort, range,
    ActiveArgs.snprintf]
  change QuotaRules.uptoLastDot _ = _ at hnetwork
  rw [hnetwork]
  simp [ascii]

/-- The two functions agree where the copies of the first have room, which it
takes from the address and not from the size of its buffer. -/
theorem expands_iff (bufSz : ℕ) (ipaddr : Bytes) :
    Expands bufSz ipaddr ↔ AddressFits bufSz ipaddr ∧
      ∀ short : Shorthand, ipaddr = short.text →
        short.range.length < bufSz := by
  rw [Expands, exists_addressChecker_iff]
  refine and_congr_right fun hfits => forall_congr' fun short =>
    forall_congr' fun htext => ?_
  subst htext
  have hshort := hfits _ _ (splitFirst_append short.dash_not_mem _)
    short.dot_not_mem.2
  rw [short.addressChecker_text, if_pos hshort,
    short.quotaRangeExpand_text, Option.some.injEq, Prod.mk.injEq]
  simp only [true_and, and_self, take_eq_self_iff]
  have := hshort.2
  omega

/-- A range of two numbers has no dot to take a network from. -/
theorem not_expands_numbers : ¬ Expands 32 (bytes "5-9") := by
  rintro ⟨⟨result, hresult⟩, -⟩
  cases hresult

theorem addressType_eq_mac_iff {record : Record} {bufSz : ℕ}
    {addressType : AddressType} {ipaddr : Bytes}
    (hresult : addressChecker record.ipaddr bufSz =
      some (addressType, ipaddr)) :
    addressType = .macAddress ↔ record.IsMac := by
  rw [addressChecker] at hresult
  rw [Record.IsMac, ← splitFirst_eq_none_iff]
  cases hcut : splitFirst (ascii '-') record.ipaddr with
  | none =>
    rw [hcut] at hresult
    split_ifs at hresult with hlength
    · cases hresult
      simp [hlength]
    · cases hresult
      simpa using hlength
  | some cut =>
    rw [hcut] at hresult
    dsimp only at hresult
    split_ifs at hresult
    · cases hresult
      simp
    · cases hresult
      simp

/-! ## One record -/

theorem orElse_eq_nil_iff {ceil rate : Bytes} :
    orElse ceil rate = [] ↔ ceil = [] ∧ rate = [] := by
  rw [orElse]
  split_ifs with hceil
  · simp [hceil]
  · simp [hceil]

section
variable {record : Record} {iSeq : ℕ} {nvram : Nvram} {lines : List Line}
variable {commands : List Command}

theorem mem_iptRound_iff
    (hlines : iptRound nvram .mangle iSeq record = some lines) :
    ∃ addressType ipaddr,
      addressChecker record.ipaddr 32 = some (addressType, ipaddr) ∧
      ∀ line, line ∈ lines ↔
        (record.dlrate ≠ [] ∧ line ∈ downloadLine (lanSubnet nvram)
          (.setMark (ruleMark iSeq) ruleMask) addressType ipaddr) ∨
        (record.ulrate ≠ [] ∧ line = ⟨.prerouting,
          [sourceMatch addressType ipaddr, .destination true (lanSubnet nvram)],
          .setMark (ruleMark iSeq) ruleMask⟩) := by
  obtain ⟨⟨addressType, ipaddr⟩, hresult, rfl⟩ :=
    Option.map_eq_some_iff.mp hlines
  refine ⟨addressType, ipaddr, hresult, fun line => ?_⟩
  simp only [mem_append, mem_ite_nil_right, reduceCtorEq, and_false,
    if_false, not_mem_nil, or_false, and_true, ne_eq, orElse_eq_nil_iff,
    not_and, mem_singleton]
  refine or_congr (and_congr_left fun _ => ?_) (and_congr_left fun _ => ?_)
  · exact ⟨And.left, fun hrate => ⟨hrate, fun _ => hrate⟩⟩
  · exact ⟨And.left, fun hrate => ⟨hrate, fun _ => hrate⟩⟩

variable {direction : Direction}

/-- A direction of a rule is marked when it has a rate. -/
theorem marked_iptRound_iff
    (hlines : iptRound nvram .mangle iSeq record = some lines)
    (hmac : ¬ (direction = .download ∧ record.IsMac)) :
    Marked lines direction (ruleMark iSeq) ↔ record.rate direction ≠ [] := by
  obtain ⟨addressType, ipaddr, hresult, hmem⟩ := mem_iptRound_iff hlines
  have htype := addressType_eq_mac_iff hresult
  simp only [Marked, hmem]
  cases direction with
  | download =>
    have hline : ∃ line ∈ downloadLine (lanSubnet nvram)
        (.setMark (ruleMark iSeq) ruleMask) addressType ipaddr,
        line.hook = .postrouting ∧
          line.target = .setMark (ruleMark iSeq) ruleMask := by
      cases addressType with
      | ipAddress => exact ⟨_, mem_singleton_self _, rfl, rfl⟩
      | ipRange => exact ⟨_, mem_singleton_self _, rfl, rfl⟩
      | macAddress => exact absurd ⟨rfl, htype.mp rfl⟩ hmac
    constructor
    · rintro ⟨line, ⟨hrate, -⟩ | ⟨-, rfl⟩, hhook, -⟩
      · exact hrate
      · cases hhook
    · intro hrate
      obtain ⟨line, hline, hshape⟩ := hline
      exact ⟨line, Or.inl ⟨hrate, hline⟩, hshape⟩
  | upload =>
    constructor
    · rintro ⟨line, ⟨-, hline⟩ | ⟨hrate, -⟩, hhook, -⟩
      · cases addressType with
        | ipAddress => cases mem_singleton.mp hline; cases hhook
        | ipRange => cases mem_singleton.mp hline; cases hhook
        | macAddress => cases hline
      · exact hrate
    · intro hrate
      exact ⟨_, Or.inr ⟨hrate, rfl⟩, rfl, rfl⟩

def Record.scriptCeil (direction : Direction) : Bytes :=
  orElse (record.ceil direction) record.dlrate

theorem hasClass_startRound_iff
    (hcommands : startRound iSeq record = some commands)
    {rate ceil : Bytes} {selector : Selector} :
    HasClass commands direction rate ceil selector ↔
      (record.rate direction ≠ [] ∧ record.scriptCeil direction ≠ []) ∧
        rate = record.rate direction ∧ ceil = record.scriptCeil direction ∧
        ∃ addressType ipaddr,
          addressChecker record.ipaddr 30 = some (addressType, ipaddr) ∧
          selector =
            if direction = .download ∧ addressType = .macAddress then
              .mac ipaddr
            else .fwmark (ruleMark iSeq) ruleMask := by
  obtain ⟨⟨addressType, ipaddr⟩, hresult, rfl⟩ :=
    Option.map_eq_some_iff.mp hcommands
  simp only [HasClass, mem_append, mem_ite_nil_right, mem_singleton]
  constructor
  · rintro ⟨classid, prio, filterPrio,
      ⟨hwritten, hbranch⟩ | ⟨hwritten, hbranch⟩⟩
    · cases direction with
      | download =>
        rw [Direction.device, Command.branch.injEq] at hbranch
        obtain ⟨-, -, rfl, rfl, -, -, rfl⟩ := hbranch
        refine ⟨hwritten, rfl, rfl, addressType, ipaddr, hresult, ?_⟩
        by_cases hmac : addressType = .macAddress
        · simp [hmac]
        · simp [hmac]
      | upload => cases hbranch
    · cases direction with
      | download => cases hbranch
      | upload =>
        rw [Direction.device, Command.branch.injEq] at hbranch
        obtain ⟨-, -, rfl, rfl, -, -, rfl⟩ := hbranch
        exact ⟨hwritten, rfl, rfl, addressType, ipaddr, hresult, rfl⟩
  · rintro ⟨hwritten, rfl, rfl, _, _, hsame, rfl⟩
    rw [hresult] at hsame
    cases hsame
    cases direction with
    | download =>
      cases addressType with
      | ipAddress => exact ⟨_, _, _, Or.inl ⟨hwritten, rfl⟩⟩
      | macAddress => exact ⟨_, _, _, Or.inl ⟨hwritten, rfl⟩⟩
      | ipRange => exact ⟨_, _, _, Or.inl ⟨hwritten, rfl⟩⟩
    | upload => exact ⟨_, _, _, Or.inr ⟨hwritten, rfl⟩⟩

/-- A direction of a rule leads from its mark to a class when the script writes
the class. -/
theorem exists_hasClass_mark_iff
    (hcommands : startRound iSeq record = some commands)
    (hmac : ¬ (direction = .download ∧ record.IsMac)) :
    (∃ rate ceil, HasClass commands direction rate ceil
        (.fwmark (ruleMark iSeq) ruleMask)) ↔
      record.rate direction ≠ [] ∧ record.scriptCeil direction ≠ [] := by
  simp only [hasClass_startRound_iff hcommands]
  constructor
  · rintro ⟨rate, ceil, hwritten, -⟩
    exact hwritten
  intro hwritten
  obtain ⟨⟨addressType, ipaddr⟩, hresult, -⟩ :=
    Option.map_eq_some_iff.mp hcommands
  refine ⟨_, _, hwritten, rfl, rfl, addressType, ipaddr, hresult, ?_⟩
  rw [if_neg]
  rwa [addressType_eq_mac_iff hresult]

theorem Record.OwnCeiling.scriptCeil_eq (hown : record.OwnCeiling)
    (hrate : record.rate direction ≠ []) :
    record.scriptCeil direction =
      orElse (record.ceil direction) (record.rate direction) := by
  cases direction with
  | download => rfl
  | upload =>
    obtain hnone | hceil | hsame := hown
    · exact absurd hnone hrate
    · rw [Record.scriptCeil, Record.ceil, orElse, orElse, if_neg hceil,
        if_neg hceil]
    · rw [Record.scriptCeil, Record.rate, hsame]

/-- What the two loops write for a record fits together exactly when the upload
has its own ceiling. -/
theorem corresponds_iff
    (hlines : iptRound nvram .mangle iSeq record = some lines)
    (hcommands : startRound iSeq record = some commands) :
    Corresponds record iSeq lines commands ↔ record.OwnCeiling := by
  constructor
  · intro hcorresponds
    have hupload : ¬ (Direction.upload = .download ∧ record.IsMac) := by
      rintro ⟨hdirection, -⟩
      cases hdirection
    have hmarked := hcorresponds.marked_iff .upload hupload
    rw [marked_iptRound_iff hlines hupload,
      exists_hasClass_mark_iff hcommands hupload] at hmarked
    by_contra hown
    simp only [Record.OwnCeiling, not_or, not_not] at hown
    obtain ⟨hrate, hceil, hdiffer⟩ := hown
    have hwritten := hmarked.mp hrate
    obtain ⟨rate, ceil, hclass⟩ :=
      (exists_hasClass_mark_iff hcommands hupload).mpr hwritten
    have hown := (hcorresponds.rates .upload rate ceil _ hclass).2
    obtain ⟨-, -, rfl, -⟩ := (hasClass_startRound_iff hcommands).mp hclass
    rw [Record.scriptCeil, Record.ceil, Record.rate, orElse, orElse,
      if_pos hceil, if_pos hceil] at hown
    exact hdiffer hown
  · intro hown
    refine ⟨fun direction hmac => ?_, fun direction rate ceil selector hclass =>
      ?_⟩
    · rw [marked_iptRound_iff hlines hmac,
        exists_hasClass_mark_iff hcommands hmac]
      refine ⟨fun hrate => ⟨hrate, fun hnone => ?_⟩, And.left⟩
      rw [hown.scriptCeil_eq hrate, orElse_eq_nil_iff] at hnone
      exact hrate hnone.2
    · obtain ⟨⟨hrate, -⟩, hrateEq, hceilEq, -⟩ :=
        (hasClass_startRound_iff hcommands).mp hclass
      exact ⟨hrateEq, hceilEq.trans (hown.scriptCeil_eq hrate)⟩

/-- Nothing is written while the limiter is off. -/
theorem corresponds_nil : Corresponds record iSeq [] [] := by
  refine ⟨fun direction _ => ⟨?_, ?_⟩, ?_⟩
  · rintro ⟨line, hline, -⟩
    cases hline
  · rintro ⟨rate, ceil, classid, prio, filterPrio, hclass⟩
    cases hclass
  · rintro direction rate ceil selector ⟨classid, prio, filterPrio, hclass⟩
    cases hclass

end

/-! ## All records -/

theorem exists_startRound_iff {iSeq : ℕ} {record : Record} :
    (∃ commands, startRound iSeq record = some commands) ↔
      AddressFits 30 record.ipaddr := by
  rw [← exists_addressChecker_iff]
  simp only [startRound, Option.map_eq_some_iff]
  constructor
  · rintro ⟨commands, result, hresult, -⟩
    exact ⟨result, hresult⟩
  · rintro ⟨result, hresult⟩
    exact ⟨_, result, hresult, rfl⟩

theorem exists_iptRound {nvram : Nvram} {chain : Chain} {iSeq : ℕ}
    {record : Record} (hfits : AddressFits 30 record.ipaddr) :
    ∃ lines, iptRound nvram chain iSeq record = some lines := by
  obtain ⟨result, hresult⟩ :=
    exists_addressChecker_iff.mpr (hfits.mono (Nat.le_add_right 30 2))
  exact ⟨_, Option.map_eq_some_iff.mpr ⟨result, hresult, rfl⟩⟩

section
variable {nvram : Nvram} (hon : nvram.int (bytes "bwl_enable") ≠ 0)
include hon

/-- A record whose address runs out of the buffer stops the loops, and one whose
upload has no ceiling of its own gets a wrong class or none. -/
theorem ownCeiling_of_inStep (hstep : InStep nvram) :
    ∀ record ∈ records nvram,
      AddressFits 30 record.ipaddr ∧ record.OwnCeiling := by
  obtain ⟨rules, script, hrules, hscript, -, hall⟩ := hstep
  rw [iptBwlimit, if_neg hon] at hrules
  rw [startBwlimit, if_neg hon] at hscript
  obtain ⟨lines, hlines, rfl⟩ := Option.map_eq_some_iff.mp hrules
  obtain ⟨commands, hcommands, rfl⟩ := Option.map_eq_some_iff.mp hscript
  intro record hrecord
  obtain ⟨index, hindex⟩ := mem_iff_getElem?.mp hrecord
  obtain ⟨own, hown, hline⟩ := exists_round_of_numbered hlines hindex
  obtain ⟨built, hbuilt, hcommand⟩ := exists_round_of_numbered hcommands hindex
  have hcorresponds := hall index record hindex
  rw [hline, hcommand, Nat.add_comm index] at hcorresponds
  exact ⟨exists_startRound_iff.mp ⟨built, hbuilt⟩,
    (corresponds_iff hown hbuilt).mp hcorresponds⟩

theorem exists_iptBwlimit {lines : List (List Line)}
    (hlines : numbered readRecord (iptRound nvram .mangle) 1
      (recordTexts nvram) = some lines) :
    ∃ rules, iptBwlimit nvram .mangle = some rules ∧ rules.rules = lines := by
  rw [iptBwlimit, if_neg hon, hlines]
  exact ⟨_, rfl, rfl⟩

theorem exists_startBwlimit {commands : List (List Command)}
    (hcommands : numbered readRecord startRound 1 (recordTexts nvram) =
      some commands) :
    ∃ script, startBwlimit nvram = some script ∧ script.rules = commands := by
  rw [startBwlimit, if_neg hon, hcommands]
  exact ⟨_, rfl, rfl⟩

theorem inStep_of_ownCeiling (hall : ∀ record ∈ records nvram,
      AddressFits 30 record.ipaddr ∧ record.OwnCeiling) : InStep nvram := by
  have hmem : ∀ (index : ℕ) record, (records nvram)[index]? = some record →
      AddressFits 30 record.ipaddr ∧ record.OwnCeiling :=
    fun index record hindex => hall record (mem_of_getElem? hindex)
  obtain ⟨lines, hlines⟩ : ∃ lines, numbered readRecord
      (iptRound nvram .mangle) 1 (recordTexts nvram) = some lines :=
    exists_numbered_iff.mpr fun index record hindex =>
      exists_iptRound (hmem index record hindex).1
  obtain ⟨commands, hcommands⟩ : ∃ commands, numbered readRecord startRound
      1 (recordTexts nvram) = some commands :=
    exists_numbered_iff.mpr fun index record hindex =>
      exists_startRound_iff.mpr (hmem index record hindex).1
  obtain ⟨rules, hrules, rfl⟩ := exists_iptBwlimit hon hlines
  obtain ⟨script, hscript, rfl⟩ := exists_startBwlimit hon hcommands
  refine ⟨rules, script, hrules, hscript, ?_, fun index record hindex => ?_⟩
  · exact (numbered_getElem? hlines 0).2.trans
      (numbered_getElem? hcommands 0).2.symm
  obtain ⟨own, hown, hline⟩ := exists_round_of_numbered hlines hindex
  obtain ⟨built, hbuilt, hcommand⟩ := exists_round_of_numbered hcommands hindex
  rw [hline, hcommand, Nat.add_comm index]
  exact (corresponds_iff hown hbuilt).mpr (hmem index record hindex).2

end

/-- The limiter's marks and classes fit together exactly when no address runs
out of its buffer and every upload has its own ceiling, or the limiter is
off. -/
theorem inStep_iff (nvram : Nvram) :
    InStep nvram ↔ nvram.int (bytes "bwl_enable") = 0 ∨
      ∀ record ∈ records nvram,
        AddressFits 30 record.ipaddr ∧ record.OwnCeiling := by
  by_cases hoff : nvram.int (bytes "bwl_enable") = 0
  · refine iff_of_true ⟨.empty, .empty, if_pos hoff, if_pos hoff, rfl, ?_⟩
      (Or.inl hoff)
    intro index record _
    exact corresponds_nil
  · rw [or_iff_right hoff]
    exact ⟨ownCeiling_of_inStep hoff, inStep_of_ownCeiling hoff⟩

/-- A host with a limit for its uploads and none for its downloads. -/
def uploadOnly : Nvram := fun key =>
  if key = bytes "bwl_enable" then bytes "1"
  else if key = bytes "bwl_rules" then
    bytes "1<192.168.1.5<<<100<<2<0<0<laptop"
  else []

/-- The uploads of the host are marked, and there is no class for the mark. -/
theorem not_inStep_uploadOnly : ¬ InStep uploadOnly := by
  have hrecord : ⟨bytes "192.168.1.5", [], [], bytes "100", [], bytes "2",
      bytes "0", bytes "0"⟩ ∈ records uploadOnly := by decide
  intro hstep
  obtain ⟨-, hrate | hceil | hsame⟩ :=
    ownCeiling_of_inStep (by decide) hstep _ hrecord
  · cases hrate
  · exact hceil rfl
  · cases hsame

end Tomato64.Bwlimit
