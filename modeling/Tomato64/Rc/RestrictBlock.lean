import Mathlib.Data.List.GetD
import Tomato64.Rc.Restrictions

/-!
# What a blocking rule blocks

A rule in block mode is to block the packets that meet one of its criteria.
The criteria are stated here from the fields of the rule.  The chains are
followed as `iptables` follows them, for packets about which all that counts is
the options and the words that they meet.
-/

namespace Tomato64.Restrictions

open List Scan Split Text

/-- A packet: its table, the options of lines that it meets and the words that
a web match finds in it. -/
structure Packet where
  v6 : Bool
  meets : Bytes → Bool
  asks : Bytes → Bytes → Bool

def Test.met (packet : Packet) : Test → Bool
  | .option text => packet.meets text
  | .web key text => (words (ascii ' ') text).any (packet.asks key)

variable (env : Env)

/-- Whether a line is written to the table of a packet. -/
def Families.written (packet : Packet) (families : Families) : Bool :=
  if packet.v6 then env.ipv6Enabled && families.v6 else families.v4

def Line.met (packet : Packet) (line : Line) : Bool :=
  line.families.written env packet && line.tests.all (Test.met packet)

def walk (packet : Packet) (lines : List Line) : Option Target :=
  (lines.find? (Line.met env packet)).map Line.target

def Target.blocks : Target → Bool
  | .drop | .reject => true
  | .ret | .goto => false

def Chains.resBlocks (packet : Packet) (chains : Chains) : Bool :=
  (walk env packet chains.res).any Target.blocks

/-- Whether the chains drop or reject a packet. -/
def Chains.blocks (packet : Packet) (chains : Chains) : Bool :=
  match chains.dev with
  | none => chains.resBlocks env packet
  | some lines =>
    match walk env packet lines with
    | none => false
    | some .goto => chains.resBlocks env packet
    | some target => target.blocks

/-! ## Criteria -/

variable (entry : Entry)

def Entry.addrText : Bytes :=
  (entry.addrDir.map fun dir => addrOption dir entry.addr).getD []

def Entry.ndpiText : Bytes :=
  if entry.ndpi = [] then [] else bytes " -m ndpi --proto " ++ entry.ndpi

/-- The texts of an entry fit the buffers, and a host can be written.  Only
three protocols have a text for the ports. -/
structure Entry.Fits (entry : Entry) : Prop where
  ports : atoi entry.pproto ∈ [6, 17, -1] → entry.portsOption.length ≤ 255
  addr : entry.addrText.length ≤ 191
  ndpi : entry.ndpiText.length ≤ 255
  host : entry.ndpiHost = [] ∨
    hostUsable entry.ndpiText entry.ndpiHost = true

/-! ## Lines and criteria -/

section
variable {env : Env}

end

/-! ## Words of web requests -/

/-- The entries of use whose lines are in one of the tables fit. -/
def Rule.Fits (rule : Rule) : Prop :=
  ∀ entry ∈ rule.entries, ∀ use, entry.usable env = some use →
    (use.families.v4 = true ∨
      env.ipv6Enabled = true ∧ use.families.v6 = true) → entry.Fits

section
variable {env : Env} {packet : Packet} {rule : Rule} {line : Line}

end

/-! ## Devices -/

section
variable {env : Env} {packet : Packet} {next : Target} {devices : List Bytes}

end

/-! ## A narrow rule stays narrow -/

/-- The rule is about everyone, it has exceptions, or one of its devices is of
use. -/
def Rule.Reaches (rule : Rule) : Prop :=
  rule.comps = [] ∨ ∃ device ∈ rule.devices,
    device.head? = some (ascii '!') ∨ ∃ text families,
      deviceOption env device = some (text, families) ∧
        (families.v4 = true ∨ env.ipv6Enabled = true ∧ families.v6 = true)

section
variable {env : Env} {rule : Rule}

end

/-! ## An unknown protocol -/

/-- A router without IPv6 whose nDPI knows two protocols. -/
def router : Env where
  rrulewp := bytes "80,8080"
  ipv6Enabled := false
  ndpiProtos := some [(bytes "tls", true), (bytes "teams", true)]
  hostAddrtypes _ af := ⟨af.v4, false⟩

def portEntry : Entry :=
  ⟨bytes "6", bytes "d", bytes "80", [], [], bytes "0", []⟩

end Tomato64.Restrictions
