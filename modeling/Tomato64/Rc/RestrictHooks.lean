import Tomato64.Rc.Restrictions
import Tomato64.Shared.Misc

/-!
# Where the access restrictions are hooked in

`start_firewall` collects the interfaces of the active WANs.  `filter_forward`
then writes the chain `FORWARD`: the rules between LAN bridges, the rule for
invalid packets and, when a WAN is up, the jumps to `restrict` that
`ipt_restrictions` writes with its first rule.
-/

namespace Tomato64.Restrictions

open List Shared Text

/-- The settings and the state of the system. -/
structure Firewall where
  nvram : Nvram
  rrule : ℕ → Option Bytes
  checkWanup : Bytes → Bool
  hostAddrtypes : Bytes → Families → Families
  /-- The networks of the bridges, as `ipt_account` writes them. -/
  accounts : List Bytes

def bridgeCount : ℕ := 8

def lanKey (bridge : ℕ) (suffix : String) : Bytes :=
  (if bridge = 0 then bytes "lan" else bytes "lan" ++ decimal bridge) ++
    bytes "_" ++ bytes suffix

variable (firewall : Firewall)

def Firewall.lanface (bridge : ℕ) : Bytes :=
  (firewall.nvram (lanKey bridge "ifname")).take ifnamsiz

def Firewall.mwanCount : ℕ :=
  mwanActiveNum firewall.nvram

/-- `wanfaces`, which is empty behind the active WANs. -/
def Firewall.wanfaces (unit : ℕ) : List Wanface :=
  if 1 ≤ unit ∧ unit ≤ firewall.mwanCount then
    getWanfaces firewall.nvram (getWanPrefix unit)
  else []

def Firewall.wanup (unit : ℕ) : Bool :=
  1 ≤ unit ∧ unit ≤ firewall.mwanCount ∧
    firewall.checkWanup (getWanPrefix unit)

/-- `is_anywanup` -/
def Firewall.anyWanup : Bool :=
  (range (firewall.mwanCount + 1)).any firewall.wanup

inductive HookTarget where
  | accept
  | drop
  | restrict
  /-- A target after which the next line follows. -/
  | pass
deriving DecidableEq

/-- A line of `FORWARD`. -/
structure Hook where
  input : Option Bytes
  output : Option Bytes
  options : List Bytes
  target : HookTarget
deriving DecidableEq

/-- The flows that are handed to the fast path. -/
def Firewall.offloadHooks : List Hook :=
  let state := bytes "-m state --state RELATED,ESTABLISHED"
  let udp :=
    if firewall.nvram.int (bytes "ne_snat") = 2 then [bytes "! -p udp"] else []
  if firewall.nvram (bytes "flow_offloading") = bytes "1" ∨
      firewall.nvram (bytes "flow_offloading") = bytes "2" then
    [⟨none, none, state :: udp, .pass⟩]
  else []

def Firewall.accountHooks : List Hook :=
  if firewall.nvram (bytes "cstats_enable") = bytes "1" then
    firewall.accounts.map fun network =>
      ⟨none, none, [bytes "-m account --aaddr " ++ network], .pass⟩
  else []

/-- The rules within a bridge. -/
def Firewall.bridgeHooks : List Hook :=
  ((range bridgeCount).filter fun bridge =>
      firewall.lanface bridge ≠ [] || bridge = 0).map fun bridge =>
    ⟨some (firewall.lanface bridge), some (firewall.lanface bridge), [],
      .accept⟩

def both : Families := ⟨true, true⟩

/-- `ipt_addr` without an address family of its own. -/
def Firewall.addrTables (text : Bytes) : Families :=
  iptAddr ⟨[], false, none, firewall.hostAddrtypes⟩ text both false

/-- The rule of a record of `lan_access`, if it is for IPv4. -/
def Firewall.accessHook (record : Bytes) : Option Hook :=
  match record.splitOn (ascii '<') with
  | enabled :: sbr :: saddr :: dbr :: daddr :: _ :: _ =>
    if enabled.head? = some (ascii '1') ∧
        (firewall.addrTables saddr).v4 ∧ (firewall.addrTables daddr).v4 then
      some ⟨some (bytes "br" ++ sbr), some (bytes "br" ++ dbr),
        [(addrOption (bytes "src") saddr).take 127,
          (addrOption (bytes "dst") daddr).take 127].filter (· ≠ []),
        .accept⟩
    else none
  | _ => none

def Firewall.accessHooks : List Hook :=
  ((firewall.nvram (bytes "lan_access")).splitOn (ascii '>')).filterMap
    firewall.accessHook

def invalid : Bytes := bytes "-m state --state INVALID"

def ruleCount : ℕ := 50

/-- The enabled rules that are not about the wireless. -/
def Firewall.rules : List Rule :=
  ((range ruleCount).filterMap fun nrule =>
    (firewall.rrule nrule).bind readRule).filter fun rule => !rule.wireless

/-- The jumps that are written with the first rule. -/
def Firewall.restrictHooks : List Hook :=
  if firewall.rules = [] then []
  else
    (((firewall.wanfaces 1).map Wanface.name).filter (· ≠ [])).map fun name =>
      ⟨none, some name, [], .restrict⟩

/-- `FORWARD` up to the access restrictions. -/
def Firewall.forward : List Hook :=
  firewall.offloadHooks ++ firewall.accountHooks ++ firewall.bridgeHooks ++
    firewall.accessHooks ++ [⟨none, none, [invalid], .drop⟩] ++
    if firewall.anyWanup then firewall.restrictHooks else []

/-! ## Packets in `FORWARD` -/

/-- A packet: its interfaces and the options that it meets. -/
structure Forwarded where
  input : Bytes
  output : Bytes
  meets : Bytes → Bool

/-- A name that ends in `+` stands for all that start like it. -/
def matchesIface (pattern name : Bytes) : Bool :=
  if pattern.getLast? = some (ascii '+') then
    pattern.dropLast.isPrefixOf name
  else pattern = name

def Hook.met (packet : Forwarded) (hook : Hook) : Bool :=
  hook.input.all (matchesIface · packet.input) &&
    hook.output.all (matchesIface · packet.output) &&
    hook.options.all packet.meets

/-- Whether a packet gets to the chain `restrict`. -/
def traverses (packet : Forwarded) : List Hook → Bool
  | [] => false
  | hook :: hooks =>
    if hook.met packet then
      match hook.target with
      | .accept | .drop => false
      | .restrict => true
      | .pass => traverses packet hooks
    else traverses packet hooks

/-! ## Coverage -/

/-- An active WAN and one of its interfaces. -/
def Firewall.Leads (name : Bytes) : Prop :=
  name ≠ [] ∧ ∃ unit, firewall.wanup unit = true ∧
    ∃ face ∈ firewall.wanfaces unit, face.name = name

/-- The valid packets that leave through an active WAN get to `restrict`. -/
def Firewall.Covered : Prop :=
  ∀ packet : Forwarded, firewall.Leads packet.output →
    packet.meets invalid = false → traverses packet firewall.forward = true

/-- No WAN interface is the output of a rule between LAN bridges. -/
def Firewall.Separate : Prop :=
  ∀ name, firewall.Leads name →
    ∀ hook ∈ firewall.bridgeHooks ++ firewall.accessHooks, ∀ output,
      hook.output = some output → matchesIface output name = false

section
variable {firewall : Firewall} {packet : Forwarded}

/-- Lines that a packet does not meet, or that pass it on, can be left out. -/
theorem traverses_append {front : List Hook}
    (hfront : ∀ hook ∈ front, hook.met packet = true → hook.target = .pass)
    (back : List Hook) :
    traverses packet (front ++ back) = traverses packet back := by
  induction front with
  | nil => rfl
  | cons hook front ih =>
    rw [forall_mem_cons] at hfront
    rw [cons_append, traverses]
    split_ifs with hmet
    · rw [hfront.1 hmet]
      exact ih hfront.2
    · exact ih hfront.2

theorem traverses_restrict {hooks : List Hook}
    (hhooks : ∀ hook ∈ hooks, hook.target = .restrict) :
    traverses packet hooks = true ↔ ∃ hook ∈ hooks, hook.met packet = true := by
  induction hooks with
  | nil => simp [traverses]
  | cons hook hooks ih =>
    rw [forall_mem_cons] at hhooks
    rw [traverses, hhooks.1, exists_mem_cons_iff]
    split_ifs with hmet
    · exact ⟨fun _ => .inl hmet, fun _ => rfl⟩
    · rw [ih hhooks.2, or_iff_right hmet]

theorem passes_of_mem_front (hseparate : firewall.Separate)
    (hleads : firewall.Leads packet.output)
    (hvalid : packet.meets invalid = false) {hook : Hook}
    (hhook : hook ∈ firewall.offloadHooks ++ firewall.accountHooks ++
      firewall.bridgeHooks ++ firewall.accessHooks ++
      [⟨none, none, [invalid], .drop⟩])
    (hmet : hook.met packet = true) : hook.target = .pass := by
  have hlan (hhook : hook ∈ firewall.bridgeHooks ++ firewall.accessHooks)
      {output : Bytes} (houtput : hook.output = some output) : False := by
    have hmiss := hseparate packet.output hleads hook hhook output houtput
    rw [Hook.met, houtput, Option.all_some, hmiss] at hmet
    simp at hmet
  simp only [mem_append, mem_singleton] at hhook
  rcases hhook with (((hoffload | haccount) | hbridge) | haccess) | rfl
  · rw [Firewall.offloadHooks] at hoffload
    split_ifs at hoffload
    · exact mem_singleton.mp hoffload ▸ rfl
    · exact mem_singleton.mp hoffload ▸ rfl
    · exact absurd hoffload not_mem_nil
  · rw [Firewall.accountHooks] at haccount
    split_ifs at haccount
    · obtain ⟨network, -, rfl⟩ := mem_map.mp haccount
      rfl
    · exact absurd haccount not_mem_nil
  · have hmem := mem_append_left firewall.accessHooks hbridge
    obtain ⟨bridge, -, rfl⟩ := mem_map.mp hbridge
    exact (hlan hmem rfl).elim
  · have hmem := mem_append_right firewall.bridgeHooks haccess
    obtain ⟨record, -, hrecord⟩ := mem_filterMap.mp haccess
    rw [Firewall.accessHook] at hrecord
    split at hrecord
    · split_ifs at hrecord
      obtain rfl := Option.some.inj hrecord
      exact (hlan hmem rfl).elim
    · exact absurd hrecord.symm (Option.some_ne_none hook)
  · simp [Hook.met, hvalid] at hmet

theorem anyWanup_of_leads {name : Bytes} (hleads : firewall.Leads name) :
    firewall.anyWanup = true := by
  obtain ⟨-, unit, hunit, -⟩ := hleads
  have hbound := (of_decide_eq_true hunit).2.1
  exact any_eq_true.mpr
    ⟨unit, mem_range.mpr (Nat.lt_succ_of_le hbound), hunit⟩

/-- A valid packet to an active WAN gets to `restrict` exactly when a name of
the first WAN matches its interface. -/
theorem traverses_forward_iff (hrules : firewall.rules ≠ [])
    (hseparate : firewall.Separate) (hleads : firewall.Leads packet.output)
    (hvalid : packet.meets invalid = false) :
    traverses packet firewall.forward = true ↔
      ∃ face ∈ firewall.wanfaces 1, face.name ≠ [] ∧
        matchesIface face.name packet.output = true := by
  have hhooks : ∀ hook ∈ firewall.restrictHooks, hook.target = .restrict := by
    intro hook hhook
    rw [Firewall.restrictHooks, if_neg hrules] at hhook
    obtain ⟨name, -, rfl⟩ := mem_map.mp hhook
    rfl
  rw [Firewall.forward, traverses_append fun hook hhook hmet =>
    passes_of_mem_front hseparate hleads hvalid hhook hmet,
    if_pos (anyWanup_of_leads hleads), traverses_restrict hhooks,
    Firewall.restrictHooks, if_neg hrules]
  constructor
  · rintro ⟨hook, hhook, hmet⟩
    obtain ⟨name, hname, rfl⟩ := mem_map.mp hhook
    obtain ⟨hmem, hne⟩ := mem_filter.mp hname
    obtain ⟨face, hface, rfl⟩ := mem_map.mp hmem
    exact ⟨face, hface, of_decide_eq_true hne, by simpa [Hook.met] using hmet⟩
  · rintro ⟨face, hface, hne, hmatch⟩
    refine ⟨⟨none, some face.name, [], .restrict⟩, ?_, by
      simpa [Hook.met] using hmatch⟩
    refine mem_map.mpr ⟨face.name, mem_filter.mpr ⟨?_, ?_⟩, rfl⟩
    · exact mem_map.mpr ⟨face, hface, rfl⟩
    · exact decide_eq_true hne

end

/-- The restrictions cover the active WANs exactly when every interface of
those is matched by a name of the first WAN. -/
theorem covered_iff (firewall : Firewall) (hrules : firewall.rules ≠ [])
    (hseparate : firewall.Separate) :
    firewall.Covered ↔ ∀ name, firewall.Leads name →
      ∃ face ∈ firewall.wanfaces 1, face.name ≠ [] ∧
        matchesIface face.name name = true := by
  constructor
  · intro hcovered name hleads
    have htraverses := hcovered ⟨[], name, fun _ => false⟩ hleads rfl
    exact (traverses_forward_iff hrules hseparate hleads rfl).mp htraverses
  · intro hnames packet hleads hvalid
    exact (traverses_forward_iff hrules hseparate hleads hvalid).mpr
      (hnames packet.output hleads)

/-! ## One WAN and two -/

/-- A router whose WANs are all up, with a rule for everyone. -/
def Firewall.router (settings : List (Bytes × Bytes)) : Firewall where
  nvram key := (settings.lookup key).getD []
  rrule nrule :=
    if nrule = 0 then some (bytes "1|-1|-1|127||6<d<80<<<0<||0|Web") else none
  checkWanup _ := true
  hostAddrtypes _ af := af
  accounts := []

def oneWan : Firewall :=
  .router [(bytes "mwan_num", bytes "1"), (bytes "wan_proto", bytes "dhcp"),
    (bytes "wan_ifname", bytes "eth0"), (bytes "lan_ifname", bytes "br0")]

def twoWans : Firewall :=
  .router [(bytes "mwan_num", bytes "2"), (bytes "wan_proto", bytes "dhcp"),
    (bytes "wan_ifname", bytes "eth0"), (bytes "wan2_proto", bytes "dhcp"),
    (bytes "wan2_ifname", bytes "eth3"), (bytes "lan_ifname", bytes "br0")]

theorem oneWan_leads {name : Bytes} (hleads : oneWan.Leads name) :
    name = bytes "eth0" := by
  obtain ⟨-, unit, hunit, face, hface, rfl⟩ := hleads
  obtain ⟨hlow, hhigh, -⟩ := of_decide_eq_true hunit
  have hcount : oneWan.mwanCount = 1 := by decide
  obtain rfl : unit = 1 := by omega
  have hfaces : (oneWan.wanfaces 1).map Wanface.name = [bytes "eth0"] := by
    decide
  exact mem_singleton.mp (hfaces ▸ mem_map_of_mem hface)

theorem twoWans_leads {name : Bytes} (hleads : twoWans.Leads name) :
    name = bytes "eth0" ∨ name = bytes "eth3" := by
  obtain ⟨-, unit, hunit, face, hface, rfl⟩ := hleads
  obtain ⟨hlow, hhigh, -⟩ := of_decide_eq_true hunit
  have hcount : twoWans.mwanCount = 2 := by decide +kernel
  obtain rfl | rfl : unit = 1 ∨ unit = 2 := by omega
  · have hfaces : (twoWans.wanfaces 1).map Wanface.name = [bytes "eth0"] := by
      decide
    exact .inl (mem_singleton.mp (hfaces ▸ mem_map_of_mem hface))
  · have hfaces : (twoWans.wanfaces 2).map Wanface.name = [bytes "eth3"] := by
      decide +kernel
    exact .inr (mem_singleton.mp (hfaces ▸ mem_map_of_mem hface))

/-- The only rule between bridges is the one for `br0`. -/
theorem separate_of_br0 {firewall : Firewall}
    (hhooks : (firewall.bridgeHooks ++ firewall.accessHooks).map Hook.output =
      [some (bytes "br0")]) (hnames : ∀ name, firewall.Leads name →
      matchesIface (bytes "br0") name = false) : firewall.Separate := by
  intro name hleads hook hhook output houtput
  have hmem : some output ∈ [some (bytes "br0")] :=
    hhooks ▸ houtput ▸ mem_map_of_mem hhook
  rw [Option.some.inj (mem_singleton.mp hmem)]
  exact hnames name hleads

theorem covered_oneWan : oneWan.Covered := by
  refine (covered_iff oneWan (by decide)
    (separate_of_br0 (by decide +kernel) fun name hleads => ?_)).mpr
    fun name hleads => ?_
  · rw [oneWan_leads hleads]
    decide
  · rw [oneWan_leads hleads]
    exact ⟨⟨bytes "eth0", []⟩, by decide, by decide, by decide⟩

/-- A packet through the second WAN is not looked at. -/
theorem not_covered_twoWans :
    twoWans.rules ≠ [] ∧ twoWans.Separate ∧ ¬ twoWans.Covered := by
  refine ⟨by decide, separate_of_br0 (by decide +kernel) fun name hleads => ?_,
    fun hcovered => ?_⟩
  · rcases twoWans_leads hleads with rfl | rfl <;> decide
  · have htraverses := hcovered ⟨bytes "br0", bytes "eth3", fun _ => false⟩
      ⟨by decide, 2, by decide +kernel, ⟨bytes "eth3", []⟩,
        by decide +kernel, rfl⟩ rfl
    exact absurd htraverses (by decide +kernel)

end Tomato64.Restrictions
