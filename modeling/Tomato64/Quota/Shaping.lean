import Tomato64.Quota.Ids

/-!
# The classes of the throttled quotas

`ipt_quotas` leaves the speeds of the throttled rules in a file, one line for
each band.  `start_quota_shaping` reads them back and writes a script with a
class and a filter for each band: on the bridges for downloads, on the WAN
interface for uploads.
-/

namespace Tomato64.QuotaRules

open Chains List Scan Text

structure Band where
  idx : ℤ
  dl : ℤ
  ul : ℤ
deriving DecidableEq, Repr

/-- `fscanf(f, "%d %d %d", ...)` -/
def scanBand (input : Bytes) : Option (Band × Bytes) := do
  let (idx, input) ← scanInt input
  let (dl, input) ← scanInt input
  let (ul, input) ← scanInt input
  return (⟨idx, dl, ul⟩, input)

/-- The loop, with the number of bands there is room for.  Every turn reads
some text, so the length of the text bounds the number of turns. -/
def readBandsFrom : ℕ → ℕ → Bytes → List Band
  | 0, _, _ => []
  | turns + 1, room, input =>
    if room = 0 then []
    else
      match scanBand input with
      | none => []
      | some (band, rest) =>
        if band.idx < 1 ∨ (quotaMarkBandMax : ℤ) < band.idx then
          readBandsFrom turns room rest
        else band :: readBandsFrom turns (room - 1) rest

/-- A file that is not there holds no bands. -/
def quotaReadBands (file : Option Bytes) : List Band :=
  let text := file.getD []
  readBandsFrom text.length (quotaMarkBandMax + 1) text

/-! ## The script -/

/-- The `tc` commands of the script.  Text arguments stand as they are
printed. -/
inductive Command where
  /-- `tc qdisc del dev <dev> root` -/
  | deleteRoot (dev : Bytes)
  /-- `tc qdisc add dev <dev> root handle 1: htb` -/
  | addRoot (dev : Bytes)
  /-- `tc class add dev <dev> parent 1: classid 1:1 htb rate <rate>kbit` -/
  | rootClass (dev rate : Bytes)
  /-- `tc class add dev <dev> parent 1:1 classid 1:<classid> htb rate ...` -/
  | bandClass (dev : Bytes) (classid kbit : ℤ)
  /-- `tc qdisc add dev <dev> parent 1:<classid> handle <handle>: <qdisc>` -/
  | leaf (dev : Bytes) (classid handle : ℤ) (qdisc : Bytes)
  /-- `tc filter add dev <dev> parent 1:0 ... handle <mark>/<mask> fw ...` -/
  | filter (dev : Bytes) (mark mask : Mark) (classid : ℤ)
deriving DecidableEq, Repr

structure Script where
  start : List Command
  stop : List Command
deriving DecidableEq, Repr

def bridgeCount : ℕ := 8
def quotaLeafQdisc : Bytes := bytes "fq_codel"

def lanKey (bridge : ℕ) : Bytes :=
  if bridge = 0 then bytes "lan_ipaddr"
  else bytes "lan" ++ decimal bridge ++ bytes "_ipaddr"

variable (env : Env)

/-- The bridges that have an address. -/
def bridges : List Bytes :=
  ((range bridgeCount).filter fun bridge =>
    env.nvram (lanKey bridge) ≠ []).map fun bridge =>
      bytes "br" ++ decimal bridge

/-- The speed of the link, or a speed above any. -/
def linkSpeed (key : String) : Bytes :=
  let speed := env.nvram (bytes key)
  if speed = [] ∨ speed = bytes "0" then bytes "1000000" else speed

def rootCommands (rate dev : Bytes) : List Command :=
  [.deleteRoot dev, .addRoot dev, .rootClass dev rate]

/-- The class cannot be 1:1, so the number of the band is one less. -/
def bandCommands (idx kbit : ℤ) (dev : Bytes) : List Command :=
  [.bandClass dev (idx + 1) kbit,
    .leaf dev (idx + 1) (idx + 1) quotaLeafQdisc,
    .filter dev (BitVec.ofInt 32 idx <<< quotaMarkBandShift) quotaMarkBandMask
      (idx + 1)]

variable (bands : List Band)

def hasDl : Bool :=
  bands.any fun band => 0 < band.dl

def hasUl : Bool :=
  bands.any fun band => 0 < band.ul

/-- The devices for downloads. -/
def lanDevs : List Bytes :=
  if dlFree env && hasDl bands then bridges env else []

/-- The device for uploads. -/
def wanDevs : List Bytes :=
  [env.nvram (bytes "wan_iface")].filter (· ≠ [])

def startCommands : List Command :=
  (lanDevs env bands).flatMap (rootCommands (linkSpeed env "wan_qos_ibw")) ++
  (if ulFree env && hasUl bands then
    (wanDevs env).flatMap (rootCommands (linkSpeed env "wan_qos_obw"))
  else []) ++
  bands.flatMap fun band =>
    (if 0 < band.dl then
      (lanDevs env bands).flatMap (bandCommands band.idx band.dl) else []) ++
    (if 0 < band.ul && ulFree env then
      (wanDevs env).flatMap (bandCommands band.idx band.ul) else [])

def stopCommands : List Command :=
  (lanDevs env bands).map .deleteRoot ++
  (if ulFree env && hasUl bands then (wanDevs env).map .deleteRoot else [])

/-- The script that is written, if any.  `scriptOpens` says whether its file
can be opened. -/
def startQuotaShaping (scriptOpens : Bool) (file : Option Bytes) :
    Option Script :=
  let bands := quotaReadBands file
  if env.getInt "quota_enable" = 0 then none
  else if bands = [] then none
  else if lanDevs env bands = [] ∧ ¬ (ulFree env && hasUl bands) then none
  else if scriptOpens then
    some ⟨startCommands env bands, stopCommands env bands⟩
  else none

/-! ## The file is read back -/

theorem scanBand_cons_space {char : Byte} (hspace : isSpace char = true)
    (input : Bytes) : scanBand (char :: input) = scanBand input := by
  rw [scanBand, scanInt_cons_space hspace, scanBand]

/-- A band as it is written, with its numbers in the range of an `int`. -/
structure Speeds where
  idx : ℕ
  dl : ℕ
  ul : ℕ
  idx_pos : 1 ≤ idx
  idx_le : idx ≤ quotaMarkBandMax
  dl_lt : dl < 2 ^ 31
  ul_lt : ul < 2 ^ 31

def Speeds.line (speeds : Speeds) : Bytes :=
  decimal speeds.idx ++ [32] ++ decimal speeds.dl ++ [32] ++
    decimal speeds.ul ++ [10]

def Speeds.band (speeds : Speeds) : Band :=
  ⟨speeds.idx, speeds.dl, speeds.ul⟩

theorem scanBand_line (speeds : Speeds) (rest : Bytes) :
    scanBand (speeds.line ++ rest) = some (speeds.band, 10 :: rest) := by
  have hidx : speeds.idx < 2 ^ 31 := by
    have hle := speeds.idx_le
    simp only [quotaMarkBandMax] at hle
    omega
  have hstop : ∀ stop : Byte, isDigitOf 10 stop = false → ∀ text : Bytes,
      ∀ char, (stop :: text).head? = some char → isDigitOf 10 char = false := by
    rintro stop hstop text char hchar
    cases hchar
    exact hstop
  have hblank := hstop 32 (by decide)
  have htext : speeds.line ++ rest =
      decimal speeds.idx ++ 32 :: (decimal speeds.dl ++ 32 ::
        (decimal speeds.ul ++ 10 :: rest)) := by
    simp [Speeds.line]
  rw [htext, scanBand, scanInt_decimal hidx (hblank _)]
  simp only [Option.bind_eq_bind, Option.bind_some]
  rw [scanInt_cons_space (by decide), scanInt_decimal speeds.dl_lt (hblank _)]
  simp only [Option.bind_some]
  rw [scanInt_cons_space (by decide), scanInt_decimal speeds.ul_lt (hstop 10 (by decide) _)]
  rfl

theorem readBandsFrom_lines {written : List Speeds} {turns room : ℕ}
    (hturns : written.length ≤ turns) (hroom : written.length ≤ room)
    {lead : Bytes} (hlead : lead = [] ∨ lead = [10]) :
    readBandsFrom turns room (lead ++ written.flatMap Speeds.line) =
      written.map Speeds.band := by
  have hscan : ∀ text, scanBand (lead ++ text) = scanBand text := by
    intro text
    rcases hlead with rfl | rfl
    · rfl
    · exact scanBand_cons_space (by decide) text
  induction written generalizing turns room lead with
  | nil =>
    cases turns with
    | zero => rfl
    | succ turns =>
      rw [readBandsFrom, hscan]
      split <;> rfl
  | cons speeds written ih =>
    obtain ⟨turns, rfl⟩ : ∃ left, turns = left + 1 :=
      Nat.exists_eq_add_one.2 (Nat.lt_of_lt_of_le (by simp) hturns)
    simp only [length_cons] at hturns hroom
    have hpos := speeds.idx_pos
    have hle := speeds.idx_le
    rw [readBandsFrom, if_neg (by omega), hscan, flatMap_cons, scanBand_line]
    dsimp only
    rw [if_neg (by simp only [Speeds.band]; omega), map_cons]
    congr 1
    exact ih (by omega) (by omega) (.inr rfl)
      (fun text => scanBand_cons_space (by decide) text)

/-! ## The bands of the rules -/

/-- The rule has a line in the file. -/
def throttled (rule : QuotaRule) : Bool :=
  shapeDl env rule ≠ 0 || shapeUl env rule ≠ 0

def bandOf (rule : QuotaRule) : Band :=
  ⟨rule.idx, shapeDl env rule, shapeUl env rule⟩

def bandsOf : List Band :=
  (env.rules.filter (throttled env)).map (bandOf env)

theorem atoi_lt (input : Bytes) : atoi input < 2 ^ 31 := by
  unfold atoi
  split
  · exact BitVec.toInt_lt
  · decide

section
variable {env : Env} {rule : QuotaRule}

theorem shapeDl_ne_zero_iff :
    shapeDl env rule ≠ 0 ↔
      ∃ kind ∈ rule.kinds, kind ≠ .up ∧ overBand env rule kind = true := by
  unfold shapeDl
  split
  · next hany =>
    simp only [any_eq_true, Bool.and_eq_true, decide_eq_true_eq] at hany
    refine ⟨fun _ => hany, fun _ => ?_⟩
    obtain ⟨kind, -, hkind, hband⟩ := hany
    have hspeed := (overBand_dl hband hkind).2.1
    omega
  · next hany =>
    simpa using hany

theorem shapeUl_ne_zero_iff :
    shapeUl env rule ≠ 0 ↔
      ∃ kind ∈ rule.kinds, kind ≠ .down ∧ overBand env rule kind = true := by
  unfold shapeUl
  split
  · next hany =>
    simp only [any_eq_true, Bool.and_eq_true, decide_eq_true_eq] at hany
    refine ⟨fun _ => hany, fun _ => ?_⟩
    obtain ⟨kind, -, hkind, hband⟩ := hany
    have hspeed := (overBand_ul hband hkind).2.1
    omega
  · next hany =>
    simpa using hany

theorem shapeDl_lt : shapeDl env rule < 2 ^ 31 := by
  have hbound := atoi_lt rule.record.tdl
  unfold shapeDl
  split <;> omega

theorem shapeUl_lt : shapeUl env rule < 2 ^ 31 := by
  have hbound := atoi_lt rule.record.tul
  unfold shapeUl
  split <;> omega

theorem idx_le_of_throttled (hthrottled : throttled env rule = true) :
    rule.idx ≤ quotaMarkBandMax := by
  simp only [throttled, Bool.or_eq_true, decide_eq_true_eq] at hthrottled
  rcases hthrottled with hdl | hul
  · obtain ⟨kind, -, -, hband⟩ := shapeDl_ne_zero_iff.1 hdl
    exact (idx_le_of_overBand hband).1
  · obtain ⟨kind, -, -, hband⟩ := shapeUl_ne_zero_iff.1 hul
    exact (idx_le_of_overBand hband).1

/-- The lines of the file are those of the bands. -/
theorem exists_speeds (env : Env) {rules : List QuotaRule}
    (hrules : ∀ rule ∈ rules, 1 ≤ rule.idx) :
    ∃ written : List Speeds,
      rules.flatMap (shapeLine env) = written.flatMap Speeds.line ∧
        (rules.filter (throttled env)).map (bandOf env) =
          written.map Speeds.band := by
  induction rules with
  | nil => exact ⟨[], rfl, rfl⟩
  | cons rule rules ih =>
    rw [forall_mem_cons] at hrules
    obtain ⟨written, hlines, hbands⟩ := ih hrules.2
    cases hthrottled : throttled env rule with
    | false =>
      refine ⟨written, ?_, ?_⟩
      · have hnone : shapeLine env rule = [] := by
          simp only [throttled, Bool.or_eq_false_iff,
            decide_eq_false_iff_not] at hthrottled
          rw [shapeLine, if_neg (by simp [hthrottled])]
        rw [flatMap_cons, hnone, nil_append, hlines]
      · rw [filter_cons_of_neg (by simp [hthrottled]), hbands]
    | true =>
      refine ⟨⟨rule.idx, shapeDl env rule, shapeUl env rule, hrules.1,
        idx_le_of_throttled hthrottled, shapeDl_lt, shapeUl_lt⟩ :: written,
        ?_, ?_⟩
      · have hline : shapeDl env rule ≠ 0 ∨ shapeUl env rule ≠ 0 := by
          simpa [throttled] using hthrottled
        rw [flatMap_cons, hlines, shapeLine, if_pos hline]
        rfl
      · rw [filter_cons_of_pos hthrottled, map_cons, hbands]
        rfl

theorem one_le_idx (hrule : rule ∈ env.rules) : 1 ≤ rule.idx :=
  (le_idx_of_mem_numberRules (mem_of_mem_filter hrule)).1

/-- The bands differ and fit a byte, so the array has room for all. -/
theorem length_bandsOf_le (env : Env) :
    (bandsOf env).length ≤ quotaMarkBandMax + 1 := by
  have hnodup : ((env.rules.filter (throttled env)).map QuotaRule.idx).Nodup :=
    pairwise_map.2
      (((pairwise_idx_rules env).filter _).imp Nat.ne_of_lt)
  have hrange : (env.rules.filter (throttled env)).map QuotaRule.idx ⊆
      range (quotaMarkBandMax + 1) := by
    intro idx hidx
    obtain ⟨rule, hrule, rfl⟩ := mem_map.1 hidx
    have hle := idx_le_of_throttled (mem_filter.1 hrule).2
    exact mem_range.2 (Nat.lt_succ_of_le hle)
  have hlength := (subperm_of_subset hnodup hrange).length_le
  rwa [length_map, length_range, ← length_map (bandOf env)] at hlength

/-- `start_quota_shaping` sees the bands that `ipt_quotas` has used. -/
theorem quotaReadBands_shape (hbuilds : builds env = true)
    (hopens : env.shapeOpens = true) :
    quotaReadBands (iptQuotas env).shape = bandsOf env := by
  obtain ⟨written, hlines, hbands⟩ :=
    exists_speeds env fun rule hrule => one_le_idx hrule
  have htext : (iptQuotas env).shape =
      some (written.flatMap Speeds.line) := by
    rw [iptQuotas, if_pos hbuilds, hopens, if_pos rfl, hlines]
  have hcount : written.length ≤ quotaMarkBandMax + 1 := by
    have hlength := length_bandsOf_le env
    rwa [bandsOf, hbands, length_map] at hlength
  have hturns : written.length ≤ (written.flatMap Speeds.line).length := by
    have hsum := length_le_sum_of_one_le
      (written.map fun speeds => speeds.line.length) (by
        simp only [forall_mem_map, Speeds.line, length_append, length_singleton]
        omega)
    rwa [length_map, ← length_flatMap] at hsum
  rw [htext, quotaReadBands, Option.getD_some, bandsOf, hbands]
  exact readBandsFrom_lines hturns hcount (.inl rfl)

/-! ## What the script shapes -/

/-- The script has a class and a filter for exactly this band on the
device. -/
def Script.Shapes (script : Script) (dev : Bytes) (idx : ℕ) : Prop :=
  (∃ kbit, .bandClass dev (idx + 1) kbit ∈ script.start) ∧
    .filter dev (band idx) quotaMarkBandMask (idx + 1) ∈ script.start

/-- The script of a firewall run. -/
def shapingScript (env : Env) (scriptOpens : Bool) : Option Script :=
  startQuotaShaping env scriptOpens (iptQuotas env).shape

variable {dev : Bytes}

variable {idx : ℕ}

/-- The bands that the commands shape, and where. -/
theorem shapes_iff_of_start {bands : List Band} {script : Script}
    (hstart : script.start = startCommands env bands) :
    script.Shapes dev idx ↔
      ∃ band ∈ bands, band.idx = idx ∧ (0 < band.dl ∧ dev ∈ lanDevs env bands ∨
        0 < band.ul ∧ ulFree env = true ∧ dev ∈ wanDevs env) := by
  rw [Script.Shapes, hstart]
  constructor
  · rintro ⟨-, hfilter⟩
    simp only [startCommands, rootCommands, bandCommands, mem_append,
      mem_flatMap, mem_ite_nil_right, mem_cons, Command.filter.injEq,
      reduceCtorEq, not_mem_nil, or_false, false_or, and_false, exists_false,
      Bool.and_eq_true, decide_eq_true_eq] at hfilter
    obtain ⟨band, hband, ⟨hdl, _, hdev, rfl, -, -, hclass⟩ |
      ⟨⟨hul, hfree⟩, _, hdev, rfl, -, -, hclass⟩⟩ := hfilter
    · exact ⟨band, hband, by omega, .inl ⟨hdl, hdev⟩⟩
    · exact ⟨band, hband, by omega, .inr ⟨hul, hfree, hdev⟩⟩
  · rintro ⟨band, hband, hidx, hdev⟩
    obtain ⟨kbit, hcommands⟩ : ∃ kbit, ∀ command ∈ bandCommands idx kbit dev,
        command ∈ startCommands env bands := by
      rw [← hidx]
      rcases hdev with ⟨hdl, hdev⟩ | ⟨hul, hfree, hdev⟩
      · refine ⟨band.dl, fun command hcommand => mem_append_right _
          (mem_flatMap.2 ⟨band, hband, mem_append_left _ ?_⟩)⟩
        rw [if_pos hdl]
        exact mem_flatMap.2 ⟨dev, hdev, hcommand⟩
      · refine ⟨band.ul, fun command hcommand => mem_append_right _
          (mem_flatMap.2 ⟨band, hband, mem_append_right _ ?_⟩)⟩
        rw [hfree, Bool.and_true, if_pos (decide_eq_true hul)]
        exact mem_flatMap.2 ⟨dev, hdev, hcommand⟩
    refine ⟨⟨kbit, hcommands _ (by simp [bandCommands])⟩, hcommands _ ?_⟩
    simp [bandCommands, QuotaRules.band]

theorem mem_wanDevs :
    dev ∈ wanDevs env ↔ dev = env.nvram (bytes "wan_iface") ∧ dev ≠ [] := by
  simp [wanDevs]

theorem eq_of_idx {other : QuotaRule} (hrule : rule ∈ env.rules)
    (hother : other ∈ env.rules) (hidx : other.idx = rule.idx) :
    other = rule := by
  have hnodup : (env.rules.map QuotaRule.idx).Nodup :=
    pairwise_map.2 ((pairwise_idx_rules env).imp Nat.ne_of_lt)
  exact inj_on_of_nodup_map hnodup hother hrule hidx

theorem quotaEnable_of_builds (hbuilds : builds env = true) :
    env.getInt "quota_enable" ≠ 0 := by
  simp only [builds, Bool.and_eq_true, decide_eq_true_eq] at hbuilds
  exact hbuilds.1.1.1

variable {scriptOpens : Bool}

theorem startCommands_of_startQuotaShaping
    {file : Option Bytes} {script : Script}
    (hscript : startQuotaShaping env scriptOpens file = some script) :
    scriptOpens = true ∧ quotaReadBands file ≠ [] ∧
      script.start = startCommands env (quotaReadBands file) := by
  simp only [startQuotaShaping, Option.ite_none_left_eq_some,
    Option.ite_none_right_eq_some, Option.some.injEq] at hscript
  obtain ⟨-, hbands, -, hopens, rfl⟩ := hscript
  exact ⟨hopens, hbands, rfl⟩

theorem mem_bandsOf {band : Band} :
    band ∈ bandsOf env ↔
      ∃ rule ∈ env.rules, throttled env rule = true ∧
        bandOf env rule = band := by
  simp [bandsOf, and_assoc]

/-- The bands that the script shapes, and where. -/
theorem shapingScript_shapes_iff
    (hbuilds : builds env = true) (hrule : rule ∈ env.rules) :
    (∃ script, shapingScript env scriptOpens = some script ∧
        script.Shapes dev rule.idx) ↔
      env.shapeOpens = true ∧ scriptOpens = true ∧
        (shapeDl env rule ≠ 0 ∧ dev ∈ bridges env ∨
          shapeUl env rule ≠ 0 ∧ dev ∈ wanDevs env) := by
  constructor
  · rintro ⟨script, hscript, hshapes⟩
    obtain ⟨hopens, hbands, hstart⟩ :=
      startCommands_of_startQuotaShaping hscript
    have hshape : env.shapeOpens = true := by
      by_contra hshut
      refine hbands ?_
      rw [iptQuotas, if_pos hbuilds, if_neg hshut]
      rfl
    rw [quotaReadBands_shape hbuilds hshape] at hstart
    obtain ⟨band, hband, hidx, hdev⟩ := (shapes_iff_of_start hstart).1 hshapes
    obtain ⟨other, hother, -, rfl⟩ := mem_bandsOf.1 hband
    obtain rfl := eq_of_idx hrule hother (by simpa [bandOf] using hidx)
    refine ⟨hshape, hopens, ?_⟩
    rcases hdev with ⟨hdl, hdev⟩ | ⟨hul, -, hdev⟩
    · refine .inl ⟨?_, ?_⟩
      · simp only [bandOf] at hdl
        omega
      · unfold lanDevs at hdev
        split at hdev
        · exact hdev
        · cases hdev
    · refine .inr ⟨?_, hdev⟩
      simp only [bandOf] at hul
      omega
  · rintro ⟨hshape, hopens, hdev⟩
    have hthrottled : throttled env rule = true := by
      rcases hdev with ⟨hdl, -⟩ | ⟨hul, -⟩ <;> simp [throttled, *]
    have hband : bandOf env rule ∈ bandsOf env :=
      mem_bandsOf.2 ⟨rule, hrule, hthrottled, rfl⟩
    have hshaped : 0 < (bandOf env rule).dl ∧ dev ∈ lanDevs env (bandsOf env) ∨
        0 < (bandOf env rule).ul ∧ ulFree env = true ∧ dev ∈ wanDevs env := by
      rcases hdev with ⟨hdl, hdev⟩ | ⟨hul, hdev⟩
      · have hpositive : 0 < (bandOf env rule).dl := by
          simp only [bandOf]
          omega
        have hhas : hasDl (bandsOf env) = true :=
          any_eq_true.2 ⟨_, hband, decide_eq_true hpositive⟩
        obtain ⟨kind, -, hkind, hover⟩ := shapeDl_ne_zero_iff.1 hdl
        rw [lanDevs, (overBand_dl hover hkind).1, hhas]
        exact .inl ⟨hpositive, hdev⟩
      · obtain ⟨kind, -, hkind, hover⟩ := shapeUl_ne_zero_iff.1 hul
        refine .inr ⟨?_, (overBand_ul hover hkind).1, hdev⟩
        simp only [bandOf]
        omega
    refine ⟨⟨startCommands env (bandsOf env), stopCommands env (bandsOf env)⟩,
      ?_, (shapes_iff_of_start rfl).2 ⟨_, hband, rfl, hshaped⟩⟩
    rw [shapingScript, startQuotaShaping,
      if_neg (quotaEnable_of_builds hbuilds),
      quotaReadBands_shape hbuilds hshape,
      if_neg (ne_nil_of_mem hband), if_neg ?_, if_pos hopens]
    rintro ⟨hnone, hwan⟩
    rcases hshaped with ⟨-, hlan⟩ | ⟨hpositive, hfree, -⟩
    · rw [hnone] at hlan
      cases hlan
    · refine hwan (Bool.and_eq_true_iff.2 ⟨hfree, ?_⟩)
      exact any_eq_true.2 ⟨_, hband, decide_eq_true hpositive⟩

/-! ## Over quota traffic -/

/-- The devices by which the packets of a cap may leave. -/
def devicesOf (env : Env) : Kind → List Bytes
  | .down => bridges env
  | .up => hookedFaces env
  | .comb => bridges env ++ hookedFaces env

/-- A rule with a bandwidth match stamps the death mark, or a band that has a
class and a filter on every device. -/
def CapHolds (env : Env) (script : Option Script)
    (entry : Rule Chain Test) : Prop :=
  ∀ idx kind id text, .bandwidth idx kind id text ∈ entry.tests →
    entry.target = .setMark quotaMarkDeath quotaMarkDeath ∨
      entry.target = .setMark (band idx) quotaMarkBandMask ∧
        ∀ dev ∈ devicesOf env kind, ∃ written, script = some written ∧
          written.Shapes dev idx

/-- No traffic goes free: every cap blocks, or is shaped wherever its packets
leave. -/
def NoFreeTraffic (env : Env) (scriptOpens : Bool) : Prop :=
  ∀ family, ∀ entry ∈ familyRules env family,
    CapHolds env (shapingScript env scriptOpens) entry

variable {kind : Kind}

theorem bandwidth_not_mem_skipTest {id text : Bytes} :
    Test.bandwidth idx kind id text ∉ skipTest rule := by
  unfold skipTest
  split <;> simp

theorem bandwidth_mem_capLines {line : Line} {other : Kind}
    {id text : Bytes} (hline : line ∈ capLines env rule kind)
    (htest : .bandwidth idx other id text ∈ line.rule.tests) :
    idx = rule.idx ∧ other = kind ∧ line.rule.target =
      .setMark (overMark env rule kind) (overMask env rule kind) := by
  unfold capLines quotaEmit at hline
  split at hline
  · rw [mem_singleton] at hline
    subst hline
    simp only [mem_append, bandwidth_not_mem_skipTest, false_or,
      mem_singleton, Test.bandwidth.injEq] at htest
    exact ⟨htest.1, htest.2.1, rfl⟩
  · simp only [iptWrite, mem_append, mem_flatMap, mem_map,
      mem_cons, not_mem_nil, or_false] at hline
    rcases hline with ⟨_, _, _, _, rfl⟩ | rfl | rfl
    · simp at htest
    · simp only [mem_cons, reduceCtorEq, cons_append, mem_append,
        bandwidth_not_mem_skipTest, false_or, Test.bandwidth.injEq,
        not_mem_nil, or_false] at htest
      exact ⟨htest.1, htest.2.1, rfl⟩
    · simp at htest

theorem mem_familyRules_ipv4 {family : Family} {entry : Rule Chain Test}
    (hentry : entry ∈ familyRules env family) :
    entry ∈ familyRules env .ipv4 := by
  cases family with
  | ipv4 => exact hentry
  | ipv6 =>
    simp only [familyRules] at hentry ⊢
    split at hentry
    · obtain ⟨line, hline, rfl⟩ := mem_map.1 hentry
      exact mem_map_of_mem (mem_of_mem_filter hline)
    · cases hentry

/-- A bandwidth match belongs to a cap of some record. -/
theorem exists_rule_of_bandwidth {entry : Rule Chain Test}
    {id text : Bytes} (hentry : entry ∈ familyRules env .ipv4)
    (htest : .bandwidth idx kind id text ∈ entry.tests) :
    builds env = true ∧ ∃ rule ∈ env.rules, kind ∈ rule.kinds ∧
      idx = rule.idx ∧ entry.target =
        .setMark (overMark env rule kind) (overMask env rule kind) := by
  have hbuilds : builds env = true := by
    by_contra hbuilds
    rw [familyRules, iptQuotas, if_neg hbuilds] at hentry
    cases hentry
  refine ⟨hbuilds, ?_⟩
  obtain ⟨line, hline, rfl⟩ := mem_map.1 hentry
  rw [iptQuotas, if_pos hbuilds] at hline
  simp only [mem_append, mem_flatMap] at hline
  have hcounter : id ∈ line.counters := mem_filterMap.2 ⟨_, htest, rfl⟩
  rcases hline with
    ((hline | ⟨rule, -, hline⟩) | ⟨rule, hrule, kind', hkind, hline⟩) | hline
  · have hnone := counters_entryLines (clearmask env) (hookedFaces env)
    rw [flatMap_eq_nil_iff] at hnone
    rw [hnone line hline] at hcounter
    cases hcounter
  · have hnone := counters_flagLines rule
    rw [flatMap_eq_nil_iff] at hnone
    rw [hnone line hline] at hcounter
    cases hcounter
  · obtain ⟨hidx, rfl, htarget⟩ := bandwidth_mem_capLines hline htest
    exact ⟨rule, hrule, hkind, hidx, htarget⟩
  · simp only [enforcementLines, ip46tWrite, mem_cons, not_mem_nil,
      or_false] at hline
    rcases hline with rfl | rfl | rfl <;> simp at htest

theorem exists_entry (hbuilds : builds env = true) (hrule : rule ∈ env.rules)
    (hkind : kind ∈ rule.kinds) :
    ∃ entry ∈ familyRules env .ipv4, ∃ id text,
      .bandwidth rule.idx kind id text ∈ entry.tests ∧ entry.target =
        .setMark (overMark env rule kind) (overMask env rule kind) := by
  have hlines : ∀ line ∈ capLines env rule kind,
      line.rule ∈ familyRules env .ipv4 := by
    intro line hline
    refine mem_map_of_mem ?_
    rw [iptQuotas, if_pos hbuilds]
    refine mem_append_left _ (mem_append_right _ ?_)
    exact mem_flatMap.2 ⟨rule, hrule, mem_flatMap.2 ⟨kind, hkind, hline⟩⟩
  have hid : counterId rule kind ∈
      (capLines env rule kind).flatMap Line.counters := by
    rw [counters_capLines]
    exact mem_singleton_self _
  obtain ⟨line, hline, hcounter⟩ := mem_flatMap.1 hid
  obtain ⟨test, htest, hsome⟩ := mem_filterMap.1 hcounter
  cases test with
  | bandwidth idx other id text =>
    obtain ⟨rfl, rfl, htarget⟩ := bandwidth_mem_capLines hline htest
    exact ⟨line.rule, hlines line hline, id, text, htest, htarget⟩
  | inFace _ => cases hsome
  | outFace _ => cases hsome
  | mark _ _ => cases hsome
  | addr _ => cases hsome

theorem face_ne_nil {face : Bytes} (hface : face ∈ hookedFaces env) :
    face ≠ [] := by
  obtain ⟨wan, -, hwan⟩ := mem_filterMap.1 hface
  unfold wanface at hwan
  split at hwan
  · obtain ⟨name, hname, rfl⟩ := Option.map_eq_some_iff.1 hwan
    have hne := find?_some hname
    obtain ⟨first, others, rfl⟩ := exists_cons_of_ne_nil (by simpa using hne)
    exact cons_ne_nil _ _
  · cases hwan

/-- Only the caps with a band depend on the script. -/
theorem noFreeTraffic_iff_shapes :
    NoFreeTraffic env scriptOpens ↔
      (builds env = true → ∀ rule ∈ env.rules, ∀ kind ∈ rule.kinds,
        overBand env rule kind = true → ∀ dev ∈ devicesOf env kind,
          ∃ script, shapingScript env scriptOpens = some script ∧
            script.Shapes dev rule.idx) := by
  constructor
  · intro hfree hbuilds rule hrule kind hkind hband
    obtain ⟨entry, hentry, id, text, htest, htarget⟩ :=
      exists_entry hbuilds hrule hkind
    rcases hfree .ipv4 entry hentry rule.idx kind id text htest with
      hdeath | ⟨-, hshapes⟩
    · rw [htarget, overMask, if_pos hband, Target.setMark.injEq] at hdeath
      exact absurd hdeath.2 (by decide)
    · exact hshapes
  · intro hshapes family entry hentry idx kind id text htest
    obtain ⟨hbuilds, rule, hrule, hkind, rfl, htarget⟩ :=
      exists_rule_of_bandwidth (mem_familyRules_ipv4 hentry) htest
    rw [htarget, overMark, overMask]
    cases hband : overBand env rule kind with
    | false => exact .inl rfl
    | true => exact .inr ⟨rfl, hshapes hbuilds rule hrule kind hkind hband⟩

theorem mem_devicesOf :
    dev ∈ devicesOf env kind ↔
      kind ≠ .up ∧ dev ∈ bridges env ∨ kind ≠ .down ∧ dev ∈ hookedFaces env := by
  cases kind <;> simp [devicesOf]

/-- Every cap blocks or is shaped exactly when the files could be written, and
the chains of a throttled upload are hooked on the one interface that is
shaped. -/
theorem noFreeTraffic_iff (env : Env) (scriptOpens : Bool) :
    NoFreeTraffic env scriptOpens ↔
      (builds env = true → ∀ rule ∈ env.rules, ∀ kind ∈ rule.kinds,
        overBand env rule kind = true →
        (devicesOf env kind ≠ [] →
          env.shapeOpens = true ∧ scriptOpens = true) ∧
        (kind ≠ .down → ∀ face ∈ hookedFaces env,
          face = env.nvram (bytes "wan_iface") ∨
            face ∈ bridges env ∧ ∃ other ∈ rule.kinds, other ≠ .up ∧
              overBand env rule other = true)) := by
  rw [noFreeTraffic_iff_shapes]
  refine forall_congr' fun hbuilds => forall₂_congr fun rule hrule =>
    forall₂_congr fun kind hkind => forall_congr' fun hband => ?_
  simp only [shapingScript_shapes_iff hbuilds hrule, mem_wanDevs]
  constructor
  · intro hshapes
    refine ⟨fun hdevices => ?_, fun hup face hface => ?_⟩
    · obtain ⟨dev, hdev⟩ := exists_mem_of_ne_nil _ hdevices
      exact ⟨(hshapes dev hdev).1, (hshapes dev hdev).2.1⟩
    · obtain ⟨-, -, ⟨hdl, hbridge⟩ | ⟨-, hwan, -⟩⟩ :=
        hshapes face (mem_devicesOf.2 (.inr ⟨hup, hface⟩))
      · exact .inr ⟨hbridge, shapeDl_ne_zero_iff.1 hdl⟩
      · exact .inl hwan
  · rintro ⟨hopens, hfaces⟩ dev hdev
    obtain ⟨hshape, hscript⟩ := hopens (ne_nil_of_mem hdev)
    refine ⟨hshape, hscript, ?_⟩
    rcases mem_devicesOf.1 hdev with ⟨hdown, hbridge⟩ | ⟨hup, hface⟩
    · exact .inl ⟨shapeDl_ne_zero_iff.2 ⟨kind, hkind, hdown, hband⟩, hbridge⟩
    · rcases hfaces hup dev hface with hwan | ⟨hbridge, hother⟩
      · exact .inr ⟨shapeUl_ne_zero_iff.2 ⟨kind, hkind, hup, hband⟩, hwan,
          face_ne_nil hface⟩
      · exact .inl ⟨shapeDl_ne_zero_iff.2 hother, hbridge⟩

end

/-- Two WANs are up, and an upload cap throttles. -/
def twoWansEnv : Env :=
  { Env.router [(bytes "quota_enable", bytes "1"),
      (bytes "quota_rules", bytes "1<ALL<<1000<<day<<<<1<<0<500<1"),
      (bytes "wan_iface", bytes "eth0")] with
    wanfaces := fun wan =>
      if wan = 0 then [bytes "eth0"]
      else if wan = 1 then [bytes "eth1"] else []
    checkWanup := fun wan => wan = 0 || wan = 1 }

theorem noFreeTraffic_twoWans_fails : ¬ NoFreeTraffic twoWansEnv true := by
  intro hfree
  have hbuilds : builds twoWansEnv = true := by decide
  have hface : bytes "eth1" ∈ hookedFaces twoWansEnv := by decide
  have hcap : ∃ rule ∈ twoWansEnv.rules, .up ∈ rule.kinds ∧
      overBand twoWansEnv rule .up = true ∧ shapeDl twoWansEnv rule = 0 := by
    decide
  obtain ⟨rule, hrule, hkind, hband, hdl⟩ := hcap
  have hshapes := noFreeTraffic_iff_shapes.1 hfree hbuilds rule hrule .up hkind
    hband (bytes "eth1") hface
  rw [shapingScript_shapes_iff hbuilds hrule] at hshapes
  rcases hshapes.2.2 with ⟨hlan, -⟩ | ⟨-, hwan⟩
  · exact hlan hdl
  · exact absurd (mem_wanDevs.1 hwan).1 (by decide)

end Tomato64.QuotaRules
