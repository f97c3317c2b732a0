import Tomato64.Core.Chains
import Tomato64.Core.Scan
import Tomato64.Quota.ActiveArgs

/-!
# The rules of the quotas

`ipt_quotas` reads the records of `quota_rules` twice.  The first pass marks
the hosts that have a quota of their own, the second writes a rule with a
bandwidth match for every cap.  The second pass also lists the counter ids in a
file, and the speeds of the throttled rules in another.

A rule of the table is kept as its chain, its tests and its target.  The text
of an address test and of a bandwidth match is what the source prints.
-/

namespace Tomato64.QuotaRules

open Text Scan Chains ActiveArgs

/-- The settings and the state of the system. -/
structure Env where
  nvram : Bytes → Bytes
  time : ℤ
  ipv6Enabled : Bool
  /-- The names of the interfaces of each WAN. -/
  wanfaces : ℕ → List Bytes
  checkWanup : ℕ → Bool
  /-- What `quota_lan_subnet` writes. -/
  lanSubnet : Bytes
  /-- Whether the two files can be opened for writing. -/
  idsOpens : Bool
  shapeOpens : Bool

def quotaClockValidMin : ℤ := 1600000000

/-- A router with one WAN, a clock that is set and files that open. -/
def Env.router (settings : List (Bytes × Bytes)) : Env where
  nvram key := (settings.lookup key).getD []
  time := quotaClockValidMin
  ipv6Enabled := false
  wanfaces wan := if wan = 0 then [bytes "eth0"] else []
  checkWanup wan := wan = 0
  lanSubnet := bytes "192.168.1.0/24"
  idsOpens := true
  shapeOpens := true

variable (env : Env)

def Env.getInt (key : String) : ℤ :=
  atoi (env.nvram (bytes key))

def mwanMax : ℕ := 4
def ifnamsiz : ℕ := 16

def quotaMarkDeath : Mark := 0x10000000#32
def quotaMarkCombined : Mark := 0x20000000#32
def quotaMarkExplicit : Mark := 0x40000000#32
def quotaMarkHit : Mark := 0x80000000#32
def quotaMarkAll : Mark := 0xF0000000#32
def quotaMarkBandMask : Mark := 0x0ff00000#32
def quotaMarkBandShift : ℕ := 20
def quotaMarkBandMax : ℕ := 255
def quotaMarkAllBand : Mark := 0xFFF00000#32

def quotaClockValid : Bool :=
  quotaClockValidMin ≤ env.time

variable (text : Bytes)

def quotaValidReset : Bool :=
  text ∈ [bytes "hour", bytes "day", bytes "week", bytes "month"]

/-! ## Records -/

inductive Scope where
  | all
  | othersComb
  | othersIndiv
  | hosts
  | hostsShared
deriving DecidableEq, Repr

def quotaIpHostsShared : Bytes := bytes "SHARED:"

def quotaScopeOf (ip : Bytes) : Scope :=
  if ip = [] ∨ ip = bytes "ALL" then .all
  else if ip = bytes "ALL_OTHERS_COMBINED" then .othersComb
  else if ip = bytes "ALL_OTHERS_INDIVIDUAL" then .othersIndiv
  else if quotaIpHostsShared.isPrefixOf ip then .hostsShared
  else .hosts

/-- The address list, behind the mark of a shared pool. -/
def quotaHostsAddrs (ip : Bytes) : Bytes :=
  if quotaIpHostsShared.isPrefixOf ip then ip.drop quotaIpHostsShared.length
  else ip

def quotaScopeHasAddrs (scope : Scope) : Bool :=
  scope = .hosts || scope = .hostsShared

def quotaScopeShared (scope : Scope) : Bool :=
  scope = .all || scope = .othersComb || scope = .hostsShared

/-- The fields of a record that are read. -/
structure Record where
  enabled : Bytes
  ip : Bytes
  dlimit : Bytes
  ulimit : Bytes
  climit : Bytes
  reset : Bytes
  rday : Bytes
  rhour : Bytes
  active : Bytes
  action : Bytes
  tdl : Bytes
  tul : Bytes
  ruleid : Bytes
deriving DecidableEq, Repr

/-- Eleven fields and up to three more.  A field that is missing is empty. -/
def readFields : Option Record :=
  match text.splitOn 60 with
  | enabled :: ip :: dlimit :: ulimit :: climit :: reset :: rday :: rhour ::
      active :: action :: _ :: more =>
      some
        { enabled, ip, dlimit, ulimit, climit, reset, rday, rhour, active,
          action
          tdl := more.getD 0 []
          tul := more.getD 1 []
          ruleid := more.getD 2 [] }
  | _ => none

/-- The record is switched on, has a known reset interval and some cap. -/
def Record.accepted (record : Record) : Bool :=
  (record.enabled = [] || atoi record.enabled = 1) &&
    quotaValidReset record.reset &&
    (record.dlimit ≠ [] || record.ulimit ≠ [] || record.climit ≠ [])

def readRecord : Option Record :=
  (readFields text).filter Record.accepted

/-- A record that has been accepted, with its number among these. -/
structure QuotaRule where
  idx : ℕ
  record : Record
deriving DecidableEq, Repr

def numberRules (first : ℕ) : List Record → List QuotaRule
  | [] => []
  | record :: records => ⟨first, record⟩ :: numberRules (first + 1) records

def quotaRules (rules : Bytes) : List QuotaRule :=
  numberRules 1 ((rules.splitOn 62).filterMap readRecord)

def idstrSize : ℕ := 24
def lanlistSize : ℕ := 512
def addrsMax : ℕ := 64

/-- Digits only, and short enough to be copied whole. -/
def validId (ruleid : Bytes) : Bool :=
  ruleid ≠ [] && ruleid.length < idstrSize && ruleid.all isDigit

variable (rule : QuotaRule)

/-- The id of the record, or else its number.  An `int` always fits. -/
def QuotaRule.idstr : Bytes :=
  if validId rule.record.ruleid then rule.record.ruleid else decimal rule.idx

def QuotaRule.scope : Scope :=
  quotaScopeOf rule.record.ip

/-- The pieces between commas and blanks. -/
def addressTokens (list : Bytes) : List Bytes :=
  (list.splitOnP fun char => char = 44 || char = 32).filter (· ≠ [])

def quotaSplitAddrs (list : Bytes) (max : ℕ) : List Bytes :=
  (addressTokens list).take max

def QuotaRule.addrs : List Bytes :=
  if quotaScopeHasAddrs rule.scope then
    quotaSplitAddrs (snprintf lanlistSize (quotaHostsAddrs rule.record.ip))
      addrsMax
  else []

/-- An address list without any address in it is skipped. -/
def QuotaRule.emits : Bool :=
  !quotaScopeHasAddrs rule.scope || rule.addrs ≠ []

def emittedRules (rules : Bytes) : List QuotaRule :=
  (quotaRules rules).filter QuotaRule.emits

/-! ## Texts -/

inductive Direction where
  | src
  | dst
deriving DecidableEq, Repr

def uptoLastDot : Bytes :=
  (text.reverse.dropWhile (· ≠ 46)).reverse

/-- A range that is given by the last octet of its end gets the network of
its start. -/
def quotaRangeExpand (bufsz : ℕ) (addr : Bytes) : Bytes :=
  let low := addr.takeWhile (· ≠ 45)
  let high := (addr.dropWhile (· ≠ 45)).drop 1
  if 45 ∉ addr ∨ 46 ∈ high ∨ 46 ∉ low then snprintf bufsz addr
  else snprintf bufsz (low ++ [45] ++ uptoLastDot low ++ high)

def quotaAddrTest (addr : Bytes) (dir : Direction) : Bytes :=
  let letter := if dir = .src then bytes "s" else bytes "d"
  let word := if dir = .src then bytes "src" else bytes "dst"
  snprintf 128 (
    if 45 ∈ addr then
      bytes " -m iprange --" ++ word ++ bytes "-range " ++
        quotaRangeExpand 64 addr
    else bytes " -" ++ letter ++ bytes " " ++ addr)

/-- A number, or the default if it is not in the range. -/
def within (low high default value : ℤ) : ℤ :=
  if value < low ∨ high < value then default else value

def quotaResetOffset (reset rday rhour : Bytes) : ℤ :=
  let day := if rday = [] then 0 else atoi rday
  let hour := within 0 23 0 (if rhour = [] then 0 else atoi rhour)
  if reset = bytes "week" then within 0 6 0 day * 86400 + hour * 3600
  else if reset = bytes "month" then
    (within 1 31 1 day - 1) * 86400 + hour * 3600
  else if reset = bytes "day" then hour * 3600
  else 0

def quotaResetArgs (reset rday rhour : Bytes) : Bytes :=
  snprintf 128 (bytes " --reset_interval " ++ reset ++
    bytes " --reset_time " ++ decimal (quotaResetOffset reset rday rhour).toNat)

/-! ## The table -/

inductive Chain where
  | forward
  | input
  | output
  | quotaFwd
  | quotaIn
  | quotaOut
  | quotaComb
deriving DecidableEq, Repr

/-- Which of its caps a rule of the table is for. -/
inductive Kind where
  | down
  | up
  | comb
deriving DecidableEq, Repr

inductive Test where
  | inFace (name : Bytes)
  | outFace (name : Bytes)
  | mark (value mask : Mark)
  | addr (text : Bytes)
  /-- The bandwidth match of a cap of the rule with this number. -/
  | bandwidth (idx : ℕ) (kind : Kind) (id text : Bytes)
deriving DecidableEq, Repr

/-- A line of the tables: for both families, or for IPv4 only. -/
structure Line where
  dual : Bool
  rule : Rule Chain Test
deriving DecidableEq, Repr

def ip46tWrite (chain : Chain) (tests : List Test) (target : Target Chain) :
    Line :=
  ⟨true, ⟨chain, tests, target⟩⟩

def iptWrite (chain : Chain) (tests : List Test) (target : Target Chain) :
    Line :=
  ⟨false, ⟨chain, tests, target⟩⟩

/-- One rule for a cap without addresses.  Otherwise the packets of every
address are marked, one rule meters them, and the mark is taken back. -/
def quotaEmit (chain : Chain) (idx : ℕ) (kind : Kind)
    (id type subnet limit resetargs activeargs : Bytes) (skipTest : List Test)
    (addrs : List Bytes) (dirs : List Direction) (overMark overMask : Mark) :
    List Line :=
  let text := snprintf 1024 (activeargs ++ bytes " -m bandwidth --id \"" ++
    id ++ bytes "\" --type " ++ type ++ subnet ++ bytes " --greater_than " ++
    limit ++ resetargs)
  let meter := Test.bandwidth idx kind id text
  let spent := Target.setMark overMark overMask
  if addrs = [] then
    [⟨subnet = [], ⟨chain, skipTest ++ [meter], spent⟩⟩]
  else
    addrs.flatMap (fun addr => dirs.map fun dir =>
      iptWrite chain [.addr (quotaAddrTest addr dir)]
        (.setMark quotaMarkHit quotaMarkHit)) ++
    [iptWrite chain (.mark quotaMarkHit quotaMarkHit :: skipTest ++ [meter])
        spent,
      iptWrite chain [] (.setMark 0 quotaMarkHit)]

/-! ## The interfaces -/

/-- The first interface of a WAN that counts as up.  The first WAN always
does. -/
def wanface (wan : ℕ) : Option Bytes :=
  if wan = 0 ∨ env.checkWanup wan then
    ((env.wanfaces wan).find? (· ≠ [])).map (snprintf ifnamsiz)
  else none

/-- The interfaces that the chains are hooked on. -/
def hookedFaces : List Bytes :=
  (List.range mwanMax).filterMap (wanface env)

/-- The rules of one interface. -/
def faceLines (face : Bytes) : List Line :=
  let alive := Test.mark 0 quotaMarkDeath
  let flag := Target.setMark quotaMarkCombined quotaMarkCombined
  [ip46tWrite .quotaFwd [.outFace face, alive] (.jump .quotaOut),
    ip46tWrite .quotaFwd [.inFace face, alive] (.jump .quotaIn),
    ip46tWrite .quotaFwd [.outFace face, alive] flag,
    ip46tWrite .quotaFwd [.inFace face, alive] flag,
    ip46tWrite .input [.inFace face, alive] (.jump .quotaIn),
    ip46tWrite .input [.inFace face, alive] (.jump .quotaComb),
    ip46tWrite .output [.outFace face, alive] (.jump .quotaOut),
    ip46tWrite .output [.outFace face, alive] (.jump .quotaComb)]

/-- The entry points clear the marks and branch to the chains. -/
def entryLines (clearmask : Mark) (faces : List Bytes) : List Line :=
  [ip46tWrite .forward [] (.setMark 0 clearmask),
    ip46tWrite .input [] (.setMark 0 clearmask),
    ip46tWrite .output [] (.setMark 0 clearmask),
    ip46tWrite .forward [] (.jump .quotaFwd)] ++
  faces.flatMap faceLines ++
  [ip46tWrite .quotaFwd [.mark quotaMarkCombined quotaMarkCombined]
      (.jump .quotaComb),
    ip46tWrite .quotaFwd [] (.setMark 0 quotaMarkCombined)]

/-- Whatever carries the death mark is dropped. -/
def enforcementLines : List Line :=
  let dead := Test.mark quotaMarkDeath quotaMarkDeath
  [ip46tWrite .forward [dead] .drop,
    ip46tWrite .input [dead] .drop,
    ip46tWrite .output [dead] .drop]

/-- The first pass: the hosts that have a quota of their own. -/
def flagLines : List Line :=
  let flag (chain : Chain) (addr : Bytes) (dir : Direction) :=
    iptWrite chain [.addr (quotaAddrTest addr dir)]
      (.setMark quotaMarkExplicit quotaMarkExplicit)
  rule.addrs.flatMap fun addr =>
    [flag .quotaOut addr .src, flag .quotaComb addr .src,
      flag .quotaIn addr .dst, flag .quotaComb addr .dst]

/-! ## Caps -/

def dlFree : Bool :=
  env.getInt "bwl_enable" = 0

def ulFree : Bool :=
  env.getInt "bwl_enable" = 0 && env.getInt "qos_enable" = 0

def clearmask : Mark :=
  if dlFree env then quotaMarkAllBand else quotaMarkAll

def quotaActThrottle : ℤ := 1

def QuotaRule.isThrottle : Bool :=
  atoi rule.record.action = quotaActThrottle

/-- A rule over its download cap gets its band instead of the death mark. -/
def overDlBand : Bool :=
  rule.isThrottle && dlFree env && 0 < atoi rule.record.tdl &&
    rule.idx ≤ quotaMarkBandMax

def overUlBand : Bool :=
  rule.isThrottle && ulFree env && 0 < atoi rule.record.tul &&
    rule.idx ≤ quotaMarkBandMax

/-- A combined cap can only throttle both directions. -/
def overBand : Kind → Bool
  | .down => overDlBand env rule
  | .up => overUlBand env rule
  | .comb => overDlBand env rule && overUlBand env rule

def band (idx : ℕ) : Mark :=
  BitVec.ofNat 32 idx <<< quotaMarkBandShift

variable (kind : Kind)

def overMark : Mark :=
  if overBand env rule kind then band rule.idx else quotaMarkDeath

def overMask : Mark :=
  if overBand env rule kind then quotaMarkBandMask else quotaMarkDeath

def QuotaRule.limit : Kind → Bytes
  | .down => rule.record.dlimit
  | .up => rule.record.ulimit
  | .comb => rule.record.climit

/-- The caps of a rule in the order in which they are written. -/
def QuotaRule.kinds : List Kind :=
  [Kind.down, .up, .comb].filter fun kind => rule.limit kind ≠ []

def Kind.letter : Kind → Bytes
  | .down => bytes "d"
  | .up => bytes "u"
  | .comb => bytes "c"

def Kind.chain : Kind → Chain
  | .down => .quotaIn
  | .up => .quotaOut
  | .comb => .quotaComb

def Kind.dirs : Kind → List Direction
  | .down => [.dst]
  | .up => [.src]
  | .comb => [.src, .dst]

/-- The type of a counter for each host. -/
def Kind.individual : Kind → Bytes
  | .down => bytes "individual_dst"
  | .up => bytes "individual_src"
  | .comb => bytes "individual_local"

/-- The buffer has room for every id. -/
def counterId : Bytes :=
  bytes "quota_" ++ rule.idstr ++ bytes "_" ++ kind.letter

def capType : Bytes :=
  if quotaScopeShared rule.scope then bytes "combined" else kind.individual

/-- Only a combined cap for each host needs the network of the LAN. -/
def capSubnet : Bytes :=
  if kind = .comb ∧ quotaScopeShared rule.scope = false then
    snprintf 64 (bytes " --subnet " ++ env.lanSubnet)
  else []

def skipTest : List Test :=
  if rule.scope = .othersComb ∨ rule.scope = .othersIndiv then
    [.mark 0 quotaMarkExplicit]
  else []

def capLines : List Line :=
  quotaEmit kind.chain rule.idx kind (counterId rule kind) (capType rule kind)
    (capSubnet env rule kind) (rule.limit kind)
    (quotaResetArgs rule.record.reset rule.record.rday rule.record.rhour)
    (quotaActiveArgs activeargsSize rule.record.active) (skipTest rule)
    rule.addrs kind.dirs (overMark env rule kind) (overMask env rule kind)

/-! ## The two files -/

def idLine : Bytes :=
  counterId rule kind ++ [10]

/-- The speeds of the caps that throttle. -/
def shapeDl : ℕ :=
  if rule.kinds.any fun kind => kind ≠ .up && overBand env rule kind then
    (atoi rule.record.tdl).toNat
  else 0

def shapeUl : ℕ :=
  if rule.kinds.any fun kind => kind ≠ .down && overBand env rule kind then
    (atoi rule.record.tul).toNat
  else 0

def shapeLine : Bytes :=
  if shapeDl env rule ≠ 0 ∨ shapeUl env rule ≠ 0 then
    decimal rule.idx ++ [32] ++ decimal (shapeDl env rule) ++ [32] ++
      decimal (shapeUl env rule) ++ [10]
  else []

/-- What is written into the table and into the two files. -/
structure Output where
  lines : List Line
  ids : Option Bytes
  shape : Option Bytes

def Output.nothing : Output :=
  { lines := [], ids := none, shape := none }

/-- The records in `quota_rules` that end up as rules. -/
def Env.rules : List QuotaRule :=
  emittedRules (env.nvram (bytes "quota_rules"))

/-- Quotas are on, the clock is set, and there are records and a WAN. -/
def builds : Bool :=
  env.getInt "quota_enable" ≠ 0 && quotaClockValid env &&
    env.nvram (bytes "quota_rules") ≠ [] && hookedFaces env ≠ []

def iptQuotas : Output :=
  if builds env then
    { lines := entryLines (clearmask env) (hookedFaces env) ++
        env.rules.flatMap flagLines ++
        env.rules.flatMap (fun rule => rule.kinds.flatMap (capLines env rule)) ++
        enforcementLines
      ids :=
        if env.idsOpens then
          some (env.rules.flatMap fun rule => rule.kinds.flatMap (idLine rule))
        else none
      shape :=
        if env.shapeOpens then some (env.rules.flatMap (shapeLine env))
        else none }
  else .nothing

/-! ## Families -/

inductive Family where
  | ipv4
  | ipv6
deriving DecidableEq, Repr

def familyRules (family : Family) : List (Rule Chain Test) :=
  match family with
  | .ipv4 => (iptQuotas env).lines.map Line.rule
  | .ipv6 =>
    if env.ipv6Enabled then
      ((iptQuotas env).lines.filter Line.dual).map Line.rule
    else []

def Test.counter : Test → Option Bytes
  | .bandwidth _ _ id _ => some id
  | _ => none

def familyIds (family : Family) : List Bytes :=
  (familyRules env family).flatMap fun rule => rule.tests.filterMap Test.counter

/-! ## Bands -/

section
variable {env : Env} {rule : QuotaRule} {kind : Kind}

theorem dlFree_of_ulFree (hfree : ulFree env = true) : dlFree env = true := by
  rw [ulFree, Bool.and_eq_true] at hfree
  exact hfree.1

/-- A band for downloads. -/
theorem overBand_dl (hband : overBand env rule kind = true)
    (hkind : kind ≠ .up) :
    dlFree env = true ∧ 0 < atoi rule.record.tdl ∧
      rule.idx ≤ quotaMarkBandMax := by
  have hdl : overDlBand env rule = true := by
    cases kind with
    | down => exact hband
    | up => exact absurd rfl hkind
    | comb => exact (Bool.and_eq_true _ _ ▸ hband).1
  simp only [overDlBand, Bool.and_eq_true, decide_eq_true_eq] at hdl
  exact ⟨hdl.1.1.2, hdl.1.2, hdl.2⟩

/-- A band for uploads. -/
theorem overBand_ul (hband : overBand env rule kind = true)
    (hkind : kind ≠ .down) :
    ulFree env = true ∧ 0 < atoi rule.record.tul ∧
      rule.idx ≤ quotaMarkBandMax := by
  have hul : overUlBand env rule = true := by
    cases kind with
    | down => exact absurd rfl hkind
    | up => exact hband
    | comb => exact (Bool.and_eq_true _ _ ▸ hband).2
  simp only [overUlBand, Bool.and_eq_true, decide_eq_true_eq] at hul
  exact ⟨hul.1.1.2, hul.1.2, hul.2⟩

/-- A band fits its byte, and is only used where the byte is free. -/
theorem idx_le_of_overBand (hband : overBand env rule kind = true) :
    rule.idx ≤ quotaMarkBandMax ∧ dlFree env = true := by
  by_cases hkind : kind = .up
  · obtain ⟨hfree, -, hidx⟩ := overBand_ul hband (by rw [hkind]; decide)
    exact ⟨hidx, dlFree_of_ulFree hfree⟩
  · obtain ⟨hfree, -, hidx⟩ := overBand_dl hband hkind
    exact ⟨hidx, hfree⟩

end

end Tomato64.QuotaRules
