import Mathlib.Data.List.Nodup
import Tomato64.Rc.BwlimitRules

/-!
# Class numbers of the bandwidth limiter

On the WAN the classes of the rules, 10, 20 and so on, share the numbers with
those of the bridges, 32, 48 and so on.  They meet in 80, the number of the
eighth rule and of br4.
-/

namespace Tomato64.Bwlimit

open List Run Shared Split Text

def Command.device : Command → Device
  | .trunk device _ _ => device
  | .branch device _ _ _ _ _ _ => device

/-- The class that is created. -/
def Command.classid : Command → ClassId
  | .trunk _ handle _ => ⟨handle, 1⟩
  | .branch _ classid _ _ _ _ _ => classid

/-- The handle of the qdisc that is created. -/
def Command.handle : Command → ℕ
  | .trunk _ handle _ => handle
  | .branch _ classid _ _ _ _ _ => classid.minor

def Command.selector? : Command → Option Selector
  | .trunk _ _ _ => none
  | .branch _ _ _ _ _ _ selector => some selector

def onDevice (commands : List Command) (device : Device) : List Command :=
  commands.filter (·.device = device)

/-- The classes of a device have different numbers, its root and its leaves have
different handles, and each mark lies inside its mask. -/
structure Distinct (commands : List Command) : Prop where
  classids : ∀ device, ((onDevice commands device).map Command.classid).Nodup
  handles : ∀ device, ((onDevice commands device).map Command.handle).Nodup
  marks : ∀ command ∈ commands, ∀ value mask,
    command.selector? = some (.fwmark value mask) → value &&& mask = value

def Record.UploadClass (record : Record) : Prop :=
  record.ulrate ≠ [] ∧ orElse record.ulceil record.dlrate ≠ []

variable (nvram : Nvram)

/-- The limit for br4 is on, and the eighth record in use has a class for its
uploads. -/
def Clash : Prop :=
  bridgeEnabled nvram 4 ∧
    ∃ record, (records nvram)[7]? = some record ∧ record.UploadClass

/-! ## Spots -/

/-- The handle at the root of a device. -/
def Device.major : Device → ℕ
  | .bridge index => if index = 0 then 1 else 2 * index + 2
  | .wan => 2

def Command.spot (command : Command) : Device × ℕ :=
  (command.device, command.classid.minor)

/-- A command keeps to the major number of its device, and only the root has the
minor number 1. -/
def Command.Placed : Command → Prop
  | .trunk device handle _ => handle = device.major
  | .branch device classid _ _ _ _ _ =>
    classid.major = device.major ∧ classid.minor ≠ 1 ∧
      classid.minor ≠ device.major

theorem classid_eq_iff {first second : Command} (hfirst : first.Placed)
    (hsecond : second.Placed) (hdevice : first.device = second.device) :
    first.classid = second.classid ↔ first.spot = second.spot := by
  have hmajor : ∀ command : Command, command.Placed →
      command.classid = ⟨command.device.major, command.classid.minor⟩ := by
    intro command hplaced
    cases command with
    | trunk device handle rate => exact congrArg (ClassId.mk · 1) hplaced
    | branch device classid rate ceil prio filterPrio selector =>
      exact congrArg (ClassId.mk · classid.minor) hplaced.1
  rw [hmajor first hfirst, hmajor second hsecond, Command.spot, Command.spot,
    hdevice]
  simp

theorem spot_eq_of_handle_eq {first second : Command} (hfirst : first.Placed)
    (hsecond : second.Placed) (hdevice : first.device = second.device)
    (hhandle : first.handle = second.handle) : first.spot = second.spot := by
  cases first with
  | trunk device handle rate =>
    cases second with
    | trunk other handle' rate' => exact Prod.ext hdevice rfl
    | branch other classid rate' ceil prio filterPrio selector =>
      obtain rfl : device = other := hdevice
      exact absurd (hhandle.symm.trans hfirst) hsecond.2.2
  | branch device classid rate ceil prio filterPrio selector =>
    cases second with
    | trunk other handle' rate' =>
      obtain rfl : device = other := hdevice
      exact absurd (hhandle.trans hsecond) hfirst.2.2
    | branch other classid' rate' ceil' prio' filterPrio' selector' =>
      exact Prod.ext hdevice hhandle

variable {commands : List Command}

/-- A number that belongs to a place of a device. -/
theorem nodup_onDevice_iff {β : Type*} [DecidableEq β] {number : Command → β} :
    (∀ device, ((onDevice commands device).map number).Nodup) ↔
      commands.Pairwise fun first second =>
        first.device = second.device → number first ≠ number second := by
  simp only [Nodup, onDevice, pairwise_map, pairwise_filter,
    decide_eq_true_eq]
  simp only [pairwise_iff_getElem]
  constructor
  · intro hall i j hi hj hlt hdevice
    exact hall _ i j hi hj hlt hdevice rfl
  · intro hall device i j hi hj hlt hfirst hsecond
    exact hall i j hi hj hlt (hfirst.trans hsecond.symm)

/-- Numbers are distinct exactly when no two commands share a place. -/
theorem distinct_iff (hplaced : ∀ command ∈ commands, command.Placed)
    (hmarks : ∀ command ∈ commands, ∀ value mask,
      command.selector? = some (.fwmark value mask) → value &&& mask = value) :
    Distinct commands ↔ (commands.map Command.spot).Nodup := by
  rw [Nodup, pairwise_map]
  constructor
  · intro hdistinct
    have hpairs := nodup_onDevice_iff.mp hdistinct.classids
    refine hpairs.imp_of_mem fun hfirst hsecond hdiffer hspot => ?_
    have hdevice := congrArg Prod.fst hspot
    exact hdiffer hdevice ((classid_eq_iff (hplaced _ hfirst)
      (hplaced _ hsecond) hdevice).mpr hspot)
  · intro hpairs
    refine ⟨nodup_onDevice_iff.mpr ?_, nodup_onDevice_iff.mpr ?_, hmarks⟩
    · refine hpairs.imp_of_mem fun hfirst hsecond hdiffer hdevice hsame => ?_
      exact hdiffer ((classid_eq_iff (hplaced _ hfirst) (hplaced _ hsecond)
        hdevice).mp hsame)
    · refine hpairs.imp_of_mem fun hfirst hsecond hdiffer hdevice hsame => ?_
      exact hdiffer (spot_eq_of_handle_eq (hplaced _ hfirst) (hplaced _ hsecond)
        hdevice hsame)

/-! ## The sections of the script -/

def ruleSpots (number : ℕ) : List (Device × ℕ) :=
  [(.bridge 0, number * 10), (.wan, number * 10)]

/-- The places of a bridge other than br0. -/
def bridgeSpots (index : ℕ) : List (Device × ℕ) :=
  [(.bridge index, 1), (.bridge index, 16 * index + 16),
    (.wan, 16 * index + 16)]

/-- What a section of the script has to hold: places out of a list, major
numbers of the devices and marks inside their masks. -/
structure Section (commands : List Command) (spots : List (Device × ℕ)) :
    Prop where
  placed : ∀ command ∈ commands, command.Placed
  marks : ∀ command ∈ commands, ∀ value mask,
    command.selector? = some (.fwmark value mask) → value &&& mask = value
  spots : (commands.map Command.spot).Sublist spots

theorem Section.nil (spots : List (Device × ℕ)) : Section [] spots := by
  refine ⟨fun command hcommand => ?_, fun command hcommand => ?_,
    nil_sublist spots⟩
  · cases hcommand
  · cases hcommand

theorem Section.append {first second : List Command}
    {firstSpots secondSpots : List (Device × ℕ)}
    (hfirst : Section first firstSpots) (hsecond : Section second secondSpots) :
    Section (first ++ second) (firstSpots ++ secondSpots) := by
  refine ⟨forall_mem_append.mpr ⟨hfirst.placed, hsecond.placed⟩,
    forall_mem_append.mpr ⟨hfirst.marks, hsecond.marks⟩, ?_⟩
  rw [map_append]
  exact hfirst.spots.append hsecond.spots

theorem Section.ite {condition : Prop} [Decidable condition]
    {spots : List (Device × ℕ)} (hsection : Section commands spots) :
    Section (if condition then commands else []) spots := by
  split
  · exact hsection
  · exact Section.nil spots

theorem section_trunk {device : Device} {handle : ℕ} (rate : Bytes)
    (hhandle : handle = device.major) :
    Section [.trunk device handle rate] [(device, 1)] := by
  refine ⟨forall_mem_singleton.mpr hhandle,
    forall_mem_singleton.mpr ?_, Sublist.refl _⟩
  intro value mask hselector
  cases hselector

theorem section_branch {device : Device} {major minor : ℕ}
    (rate ceil prio filterPrio : Bytes) {selector : Selector}
    (hmajor : major = device.major) (hone : minor ≠ 1)
    (hroot : minor ≠ device.major)
    (hmark : ∀ value mask, selector = .fwmark value mask →
      value &&& mask = value) :
    Section [.branch device ⟨major, minor⟩ rate ceil prio filterPrio selector]
      [(device, minor)] := by
  refine ⟨forall_mem_singleton.mpr ⟨hmajor, hone, hroot⟩,
    forall_mem_singleton.mpr ?_, Sublist.refl _⟩
  intro value mask hselector
  exact hmark value mask (Option.some.inj hselector)

theorem fits_of_eq {value mask value' mask' : ℕ}
    (hsame : Selector.fwmark value mask = .fwmark value' mask')
    (hfits : value &&& mask = value) : value' &&& mask' = value' := by
  cases hsame
  exact hfits

theorem ruleMark_fits : ∀ number < 81,
    ruleMark number &&& ruleMask = ruleMark number := by
  decide

theorem bridgeMark_fits : ∀ index < 8,
    bridgeMark index &&& bridgeMask = bridgeMark index := by
  decide

theorem startRound_section {iSeq : ℕ} {record : Record}
    (hcommands : startRound iSeq record = some commands) (hlast : iSeq ≤ 80) :
    Section commands (ruleSpots iSeq) := by
  obtain ⟨⟨addressType, ipaddr⟩, -, rfl⟩ := Option.map_eq_some_iff.mp hcommands
  have hfits := ruleMark_fits iSeq (Nat.lt_succ_of_le hlast)
  have hone : iSeq * 10 ≠ 1 := by omega
  have hbridge : iSeq * 10 ≠ (Device.bridge 0).major := hone
  have hwan : iSeq * 10 ≠ Device.wan.major := by
    show iSeq * 10 ≠ 2
    omega
  refine (Section.ite (section_branch _ _ _ _ rfl hone hbridge ?_)).append
    (Section.ite (section_branch _ _ _ _ rfl hone hwan ?_))
  · intro value mask hselector
    by_cases hmac : addressType = .macAddress
    · rw [if_neg (not_not.mpr hmac)] at hselector
      cases hselector
    · rw [if_pos hmac] at hselector
      exact fits_of_eq hselector hfits
  · intro value mask hselector
    exact fits_of_eq hselector hfits

theorem startLan_section :
    Section (startLan nvram) [(.bridge 0, 16), (.wan, 16)] := by
  have hfits := bridgeMark_fits 0 (by decide)
  exact Section.ite (Section.append
    (section_branch _ _ _ _ rfl (by decide) (by decide)
      fun _ _ hselector => fits_of_eq hselector hfits)
    (section_branch _ _ _ _ rfl (by decide) (by decide)
      fun _ _ hselector => fits_of_eq hselector hfits))

theorem startBridge_section {index : ℕ} (hfirst : 1 ≤ index)
    (hlast : index < 8) :
    Section (startBridge nvram index) (bridgeSpots index) := by
  have hminor : 16 * (index - 1) + 32 = 16 * index + 16 := by omega
  have hfits := bridgeMark_fits index hlast
  have hmajor : 2 * index + 2 = (Device.bridge index).major := by
    rw [Device.major, if_neg (by omega)]
  have hroot : 16 * index + 16 ≠ (Device.bridge index).major := by omega
  have hone : 16 * index + 16 ≠ 1 := by omega
  have hwan : 16 * index + 16 ≠ Device.wan.major := by
    show 16 * index + 16 ≠ 2
    omega
  rw [startBridge, hminor]
  exact Section.ite ((section_trunk _ hmajor).append
    ((section_branch _ _ _ _ hmajor hone hroot
      fun _ _ hselector => fits_of_eq hselector hfits).append
    (section_branch _ _ _ _ rfl hone hwan
      fun _ _ hselector => fits_of_eq hselector hfits)))

theorem Section.flatMap {ι : Type*} {commands : ι → List Command}
    {spots : ι → List (Device × ℕ)} {indices : List ι}
    (hall : ∀ index ∈ indices, Section (commands index) (spots index)) :
    Section (indices.flatMap commands) (indices.flatMap spots) := by
  induction indices with
  | nil => exact Section.nil _
  | cons index indices ih =>
    rw [forall_mem_cons] at hall
    exact hall.1.append (ih hall.2)

theorem startRound_spots {iSeq : ℕ} {record : Record}
    (hcommands : startRound iSeq record = some commands) :
    (commands.map Command.spot).Sublist (ruleSpots iSeq) := by
  obtain ⟨⟨addressType, ipaddr⟩, -, rfl⟩ := Option.map_eq_some_iff.mp hcommands
  rw [map_append, ruleSpots]
  show (_ ++ _ : List (Device × ℕ)).Sublist ([_] ++ [_])
  refine Sublist.append ?_ ?_
  · split
    · exact Sublist.refl _
    · exact nil_sublist _
  · split
    · exact Sublist.refl _
    · exact nil_sublist _

/-- The class of a rule on the WAN. -/
theorem wan_mem_startRound_iff {iSeq minor : ℕ} {record : Record}
    (hcommands : startRound iSeq record = some commands) :
    (Device.wan, minor) ∈ commands.map Command.spot ↔
      record.UploadClass ∧ minor = iSeq * 10 := by
  obtain ⟨⟨addressType, ipaddr⟩, -, rfl⟩ := Option.map_eq_some_iff.mp hcommands
  rw [map_append, mem_append]
  constructor
  · rintro (hspot | hspot)
    · split at hspot
      · cases mem_singleton.mp hspot
      · cases hspot
    · split at hspot
      · next hupload =>
        exact ⟨hupload, congrArg Prod.snd (mem_singleton.mp hspot)⟩
      · cases hspot
  · rintro ⟨hupload, rfl⟩
    have hwritten : record.ulrate ≠ [] ∧
        orElse record.ulceil record.dlrate ≠ [] := hupload
    right
    rw [if_pos hwritten]
    exact mem_singleton_self _

theorem wan_mem_startBridge_iff {nvram : Nvram} {index minor : ℕ} :
    (Device.wan, minor) ∈ (startBridge nvram index).map Command.spot ↔
      bridgeEnabled nvram index ∧ minor = 16 * (index - 1) + 32 := by
  rw [startBridge]
  split
  · next henabled =>
    simp [henabled, Command.spot, Command.device, Command.classid]
  · next hdisabled => simp [hdisabled]

/-! ## The whole script -/

/-- The places of all commands outside the rules. -/
def fixedSpots : List (Device × ℕ) :=
  [(.bridge 0, 1), (.wan, 1)] ++ ([(.bridge 0, 16), (.wan, 16)] ++
    otherBridges.flatMap bridgeSpots)

theorem fixedSpots_nodup : fixedSpots.Nodup := by
  decide

/-- The one place that a rule can share. -/
theorem eq_wan_eighty : ∀ spot ∈ fixedSpots,
    spot.1 = .bridge 0 ∨ spot.1 = .wan → spot.2 % 10 = 0 →
      spot = (.wan, 80) := by
  decide

/-- The commands before and behind the rules. -/
def fixedCommands : List Command :=
  [.trunk (.bridge 0) 1 (nvram (bytes "wan_qos_ibw")),
    .trunk .wan 2 (nvram (bytes "wan_qos_obw"))] ++
    (startLan nvram ++ otherBridges.flatMap (startBridge nvram))

theorem fixedCommands_section : Section (fixedCommands nvram) fixedSpots := by
  refine Section.append ((section_trunk _ rfl).append (section_trunk _ rfl))
    ((startLan_section nvram).append (Section.flatMap fun index hindex => ?_))
  have hrange := mem_range'_1.mp hindex
  exact startBridge_section nvram hrange.1 hrange.2

theorem wan_eighty_mem_fixed_iff {nvram : Nvram} :
    (Device.wan, 80) ∈ (fixedCommands nvram).map Command.spot ↔
      bridgeEnabled nvram 4 := by
  rw [fixedCommands, map_append, map_append, mem_append,
    mem_append, map_flatMap, mem_flatMap]
  constructor
  · rintro (htrunk | hlan | ⟨index, hindex, hbridge⟩)
    · revert htrunk
      simp [Command.spot, Command.classid]
    · exact absurd ((startLan_section nvram).spots.subset hlan) (by decide)
    · rw [wan_mem_startBridge_iff] at hbridge
      obtain rfl : index = 4 := by omega
      exact hbridge.1
  · intro henabled
    refine Or.inr (Or.inr ⟨4, by decide, ?_⟩)
    exact wan_mem_startBridge_iff.mpr ⟨henabled, rfl⟩

section
variable {nvram : Nvram} {rules : List (List Command)}
variable (hrules : numbered readRecord startRound 1 (recordTexts nvram) =
  some rules)
include hrules

theorem wan_eighty_mem_rules_iff :
    (Device.wan, 80) ∈ rules.flatten.map Command.spot ↔
      ∃ record, (records nvram)[7]? = some record ∧ record.UploadClass := by
  rw [map_flatten, mem_flatten]
  constructor
  · rintro ⟨spots, hspots, hmem⟩
    obtain ⟨commands, hcommands, rfl⟩ := mem_map.mp hspots
    obtain ⟨index, record, hrecord, hround⟩ :=
      exists_of_mem_numbered hrules hcommands
    obtain ⟨hupload, hminor⟩ := (wan_mem_startRound_iff hround).mp hmem
    obtain rfl : index = 7 := by omega
    exact ⟨record, hrecord, hupload⟩
  · rintro ⟨record, hrecord, hupload⟩
    obtain ⟨commands, hround, hcommands⟩ :=
      exists_round_of_numbered hrules hrecord
    exact ⟨_, mem_map.mpr ⟨commands, mem_of_getElem? hcommands, rfl⟩,
      (wan_mem_startRound_iff hround).mpr ⟨hupload, rfl⟩⟩

theorem rules_spots_sublist : (rules.flatten.map Command.spot).Sublist
    ((range' 1 rules.length).flatMap ruleSpots) := by
  rw [map_flatten, ← flatMap_def]
  exact flatMap_numbered_sublist
    (fun _ _ _ hround => startRound_spots hround) hrules

theorem rules_section (hcount : (records nvram).length ≤ 80) :
    Section rules.flatten ((range' 1 rules.length).flatMap ruleSpots) := by
  have hround : ∀ commands ∈ rules, ∃ number, Section commands
      (ruleSpots number) := by
    intro commands hcommands
    obtain ⟨index, record, hrecord, hround⟩ :=
      exists_of_mem_numbered hrules hcommands
    have hindex := (List.getElem?_eq_some_iff.mp hrecord).1
    rw [← records] at hindex
    exact ⟨_, startRound_section hround (by omega)⟩
  refine ⟨fun command hcommand => ?_, fun command hcommand => ?_,
    rules_spots_sublist hrules⟩
  · obtain ⟨commands, hcommands, hmem⟩ := mem_flatten.mp hcommand
    obtain ⟨number, hsection⟩ := hround commands hcommands
    exact hsection.placed command hmem
  · obtain ⟨commands, hcommands, hmem⟩ := mem_flatten.mp hcommand
    obtain ⟨number, hsection⟩ := hround commands hcommands
    exact hsection.marks command hmem

end

/-- Rules have places of their own. -/
theorem ruleSpots_nodup (count : ℕ) :
    ((range' 1 count).flatMap ruleSpots).Nodup := by
  rw [nodup_flatMap]
  refine ⟨fun number _ => by simp [ruleSpots], ?_⟩
  refine List.Pairwise.imp (fun {first second} hdiffer => ?_)
    (nodup_range' 1)
  intro spot hfirst hsecond
  simp only [ruleSpots, mem_cons, not_mem_nil, or_false] at hfirst
  simp only [ruleSpots, mem_cons, not_mem_nil, or_false] at hsecond
  have hminor : first * 10 = second * 10 := by
    rcases hfirst with rfl | rfl <;> rcases hsecond with hsame | hsame <;>
      exact congrArg Prod.snd hsame
  omega

/-- A place that a rule shares with a bridge is 80 on the WAN. -/
theorem eq_wan_eighty_of_mem {nvram : Nvram} {rules : List (List Command)}
    (hrules : numbered readRecord startRound 1 (recordTexts nvram) = some rules)
    {spot : Device × ℕ} (hrule : spot ∈ rules.flatten.map Command.spot)
    (hfixed : spot ∈ (fixedCommands nvram).map Command.spot) :
    spot = (.wan, 80) := by
  have hspot := (rules_spots_sublist hrules).subset hrule
  obtain ⟨number, -, hnumber⟩ := mem_flatMap.mp hspot
  refine eq_wan_eighty spot ((fixedCommands_section nvram).spots.subset hfixed)
    ?_ ?_
  · simp only [ruleSpots, mem_cons, not_mem_nil, or_false] at hnumber
    exact hnumber.imp (congrArg Prod.fst) (congrArg Prod.fst)
  · simp only [ruleSpots, mem_cons, not_mem_nil, or_false] at hnumber
    rcases hnumber with rfl | rfl
    · exact Nat.mul_mod_left number 10
    · exact Nat.mul_mod_left number 10

/-- The commands of the script, with those of the rules first. -/
theorem pieces_perm {nvram : Nvram} {script : Output Command}
    (hon : nvram.int (bytes "bwl_enable") ≠ 0)
    (hscript : startBwlimit nvram = some script) :
    numbered readRecord startRound 1 (recordTexts nvram) = some script.rules ∧
      script.pieces.Perm (script.rules.flatten ++ fixedCommands nvram) := by
  rw [startBwlimit, if_neg hon] at hscript
  obtain ⟨rules, hrules, rfl⟩ := Option.map_eq_some_iff.mp hscript
  refine ⟨hrules, ?_⟩
  rw [Output.pieces, append_assoc]
  exact perm_append_comm_assoc _ _ _

theorem distinct_empty : Distinct (Output.empty : Output Command).pieces := by
  refine (distinct_iff ?_ ?_).mpr nodup_nil
  · intro command hcommand
    cases hcommand
  · intro command hcommand
    cases hcommand

theorem distinct_iff_not_clash {nvram : Nvram} {script : Output Command}
    (hon : nvram.int (bytes "bwl_enable") ≠ 0)
    (hscript : startBwlimit nvram = some script)
    (hcount : (records nvram).length ≤ 80) :
    Distinct script.pieces ↔ ¬ Clash nvram := by
  obtain ⟨hrules, hperm⟩ := pieces_perm hon hscript
  have hsection := (rules_section hrules hcount).append
    (fixedCommands_section nvram)
  rw [distinct_iff (fun command hcommand =>
      hsection.placed command (hperm.mem_iff.mp hcommand))
    (fun command hcommand =>
      hsection.marks command (hperm.mem_iff.mp hcommand)),
    (hperm.map Command.spot).nodup_iff, map_append, nodup_append,
    Clash, ← wan_eighty_mem_rules_iff hrules, ← wan_eighty_mem_fixed_iff]
  constructor
  · rintro ⟨-, -, hapart⟩ ⟨hfixed, hrule⟩
    exact hapart _ hrule _ hfixed rfl
  intro hclash
  refine ⟨(rules_spots_sublist hrules).nodup (ruleSpots_nodup _),
    (fixedCommands_section nvram).spots.nodup fixedSpots_nodup, ?_⟩
  rintro spot hrule _ hfixed rfl
  obtain rfl := eq_wan_eighty_of_mem hrules hrule hfixed
  exact hclash ⟨hfixed, hrule⟩

/-- The numbers are distinct and the marks inside their masks, for up to 80
rules, exactly when the eighth rule has no class for its uploads or the limit
for br4 is off, or nothing is written. -/
theorem startBwlimit_distinct_iff {nvram : Nvram} {script : Output Command}
    (hscript : startBwlimit nvram = some script)
    (hcount : (records nvram).length ≤ 80) :
    Distinct script.pieces ↔
      nvram.int (bytes "bwl_enable") = 0 ∨ ¬ Clash nvram := by
  by_cases hoff : nvram.int (bytes "bwl_enable") = 0
  · rw [startBwlimit, if_pos hoff, Option.some.injEq] at hscript
    subst hscript
    exact iff_of_true distinct_empty (Or.inl hoff)
  · rw [or_iff_right hoff]
    exact distinct_iff_not_clash hoff hscript hcount

/-- The limiter writes its script for single addresses. -/
theorem exists_startBwlimit_of_single {nvram : Nvram}
    (hon : nvram.int (bytes "bwl_enable") ≠ 0)
    (hsingle : ∀ record ∈ records nvram,
      splitFirst (ascii '-') record.ipaddr = none) :
    ∃ script, startBwlimit nvram = some script := by
  obtain ⟨commands, hcommands⟩ : ∃ commands, numbered readRecord startRound 1
      (recordTexts nvram) = some commands := by
    refine exists_numbered_iff.mpr fun index record hrecord =>
      exists_startRound_iff.mpr fun front back hcut => ?_
    rw [hsingle record (mem_of_getElem? hrecord)] at hcut
    cases hcut
  obtain ⟨script, hscript, -⟩ := exists_startBwlimit hon hcommands
  exact ⟨script, hscript⟩

/-- The record for a host. -/
def hostRule (number : ℕ) : Bytes :=
  bytes "1<192.168.1." ++ digitChar number ::
    bytes "<1000<2000<100<200<2<0<0<>"

/-- Limits for some hosts and for br4. -/
def hostRules (count : ℕ) : Nvram := fun key =>
  if key = bytes "bwl_enable" then bytes "1"
  else if key = bytes "bwl_lan4_enable" then bytes "1"
  else if key = bytes "bwl_rules" then
    (range' 1 count).flatMap hostRule
  else []

theorem startBwlimit_distinct_iff_twoHosts :
    ∃ script, startBwlimit (hostRules 2) = some script ∧
      (records (hostRules 2)).length ≤ 80 ∧ Distinct script.pieces := by
  obtain ⟨script, hscript⟩ :
      ∃ script, startBwlimit (hostRules 2) = some script :=
    exists_startBwlimit_of_single (by decide) (by decide)
  have hcount : (records (hostRules 2)).length ≤ 80 := by decide
  refine ⟨script, hscript, hcount,
    (startBwlimit_distinct_iff hscript hcount).mpr (Or.inr ?_)⟩
  have hnone : (records (hostRules 2))[7]? = none := by decide
  rintro ⟨-, record, hrecord, -⟩
  rw [hnone] at hrecord
  cases hrecord

/-- The eighth host and br4 both get the class 2:80. -/
theorem not_distinct_eightHosts :
    ∃ script, startBwlimit (hostRules 8) = some script ∧
      (records (hostRules 8)).length ≤ 80 ∧ ¬ Distinct script.pieces := by
  obtain ⟨script, hscript⟩ :
      ∃ script, startBwlimit (hostRules 8) = some script :=
    exists_startBwlimit_of_single (by decide) (by decide)
  have hcount : (records (hostRules 8)).length ≤ 80 := by decide
  refine ⟨script, hscript, hcount, ?_⟩
  rw [distinct_iff_not_clash (by decide) hscript hcount, not_not]
  have hkey : bridgeKey 4 "_enable" = bytes "bwl_lan4_enable" := by
    rw [bridgeKey, if_neg (by decide), decimal, if_pos (by decide)]
    decide
  refine ⟨?_, ⟨bytes "192.168.1.8", bytes "1000", bytes "2000", bytes "100",
    bytes "200", bytes "2", bytes "0", bytes "0"⟩, by decide, ?_⟩
  · rw [bridgeEnabled, hkey]
    decide
  · rw [Record.UploadClass]
    decide

end Tomato64.Bwlimit
