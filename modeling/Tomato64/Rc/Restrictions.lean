import Tomato64.Core.Scan
import Tomato64.Core.Split

/-!
# The chains of the access restrictions

`ipt_restrictions` writes a chain `rresNN` for each enabled rule: a line for
every usable entry of the match list, for the words of the web text and for the
file types.  A rule for some devices only has a chain `rdevNN` in front of it.

A line is kept as its tests, its target and the tables that it is written to.
An option of a line is kept as the text that the source prints.
-/

namespace Tomato64.Restrictions

open Text Scan

/-- `IPT_V4` and `IPT_V6` -/
structure Families where
  v4 : Bool
  v6 : Bool
deriving DecidableEq

def Families.inter (left right : Families) : Families :=
  ⟨left.v4 && right.v4, left.v6 && right.v6⟩

/-- The settings and the state of the system. -/
structure Env where
  rrulewp : Bytes
  ipv6Enabled : Bool
  /-- The names that the running nDPI knows, with whether it has a dissector
  for them.  Nothing when the table cannot be read. -/
  ndpiProtos : Option (List (Bytes × Bool))
  hostAddrtypes : Bytes → Families → Families

/-- The fields of a rule after the schedule. -/
structure Rule where
  comps : Bytes
  matchList : Bytes
  http : Bytes
  httpFile : BitVec 32
deriving DecidableEq

/-- `vstrsep(buf, "|", &q, &p, &p, &p, &comps, &matches, &http, &p)` for a text
that fits the buffer and an enabled rule. -/
def readRule (text : Bytes) : Option Rule :=
  if 8192 ≤ text.length then none
  else
    match text.splitOn (ascii '|') with
    | enabled :: _ :: _ :: _ :: comps :: matchList :: http :: file :: _ =>
      if enabled.head? = some (ascii '1') then
        some ⟨comps, matchList, http, BitVec.ofInt 32 (atoi file)⟩
      else none
    | _ => none

def Rule.wireless (rule : Rule) : Bool :=
  rule.comps.head? = some (ascii '~')

/-- The bit of `http_file` for "All except ...". -/
def Rule.isAllow (rule : Rule) : Bool :=
  rule.httpFile.getLsbD 3

/-! ## Lines -/

inductive Test where
  /-- An option of the line, as it is printed. -/
  | option (text : Bytes)
  /-- `-m web --key "text"`, which looks for the words of the text. -/
  | web (key text : Bytes)
deriving DecidableEq

/-- The targets: `RETURN`, `chain_out_drop`, `chain_out_reject` and `-g` to the
chain `rresNN`. -/
inductive Target where
  | ret
  | drop
  | reject
  | goto
deriving DecidableEq

structure Line where
  tests : List Test
  target : Target
  families : Families
deriving DecidableEq

def optionOf (text : Bytes) : List Test :=
  if text = [] then [] else [.option text]

/-! ## Protocols of nDPI -/

/-- A name of a list without the mark of an exclusion. -/
def dropDash : Bytes → Bytes
  | 45 :: name => name
  | name => name

variable (protos : Option (List (Bytes × Bool)))

/-- `ndpi_proto_list_valid`.  Without a table nothing is refused. -/
def ndpiProtoListValid (value : Bytes) : Bool :=
  match protos with
  | none => true
  | some table =>
    ((value.take 255).splitOn (ascii ',')).all fun name =>
      dropDash name = [] || dropDash name = bytes "all" ||
        table.any fun entry => equalNoCase entry.1 (dropDash name)

variable (env : Env)

/-- `ipt_ndpi`: the text in `opt`, or nothing for an unusable protocol. -/
def iptNdpi (value : Bytes) : Option Bytes :=
  if value = [] then some []
  else if ndpiProtoListValid env.ndpiProtos value then
    some ((bytes " -m ndpi --proto " ++ value).take 255)
  else none

section
variable (table : List (Bytes × Bool)) (value : Bytes)

/-- A name of a list that the match takes. -/
def Known (name : Bytes) : Prop :=
  dropDash name = [] ∨ dropDash name = bytes "all" ∨
    ∃ entry ∈ table, equalNoCase entry.1 (dropDash name) = true

/-- The option holds the whole of a value of known names; others are refused. -/
structure Exact (opt : Option Bytes) : Prop where
  written : value ≠ [] → ∀ text ∈ opt,
    text = bytes " -m ndpi --proto " ++ value ∧
      ∀ name ∈ value.splitOn (ascii ','), Known table name
  refused : (∃ name ∈ value.splitOn (ascii ','), ¬ Known table name) →
    opt = none

theorem ndpiProtoListValid_iff :
    ndpiProtoListValid (some table) value = true ↔
      ∀ name ∈ (value.take 255).splitOn (ascii ','), Known table name := by
  simp only [ndpiProtoListValid, Known, List.all_eq_true, Bool.or_eq_true,
    decide_eq_true_eq, List.any_eq_true, or_assoc]

theorem length_le_of_exact (hvalue : value ≠ [])
    (hknown : ∀ name ∈ (value.take 255).splitOn (ascii ','), Known table name)
    (hexact : Exact table value
      (iptNdpi { env with ndpiProtos := some table } value)) :
    value.length ≤ 238 := by
  have hwhole := (hexact.written hvalue _ (by
    rw [iptNdpi, if_neg hvalue,
      if_pos ((ndpiProtoListValid_iff table value).2 hknown)]
    rfl)).1
  have hprefix : (bytes " -m ndpi --proto ").length = 17 := by decide
  rw [List.take_eq_self_iff, List.length_append] at hwhole
  omega

/-- The option is right exactly if the value fits the buffer, or the part of it
that is checked names an unknown protocol. -/
theorem iptNdpi_exact_iff :
    Exact table value (iptNdpi { env with ndpiProtos := some table } value) ↔
      value.length ≤ 238 ∨
        ∃ name ∈ (value.take 255).splitOn (ascii ','), ¬ Known table name := by
  by_cases hvalue : value = []
  · subst hvalue
    refine iff_of_true ⟨fun hne => absurd rfl hne, ?_⟩ (.inl (Nat.zero_le _))
    rintro ⟨name, hname, hbad⟩
    exact absurd (.inl (by rw [List.mem_singleton.1 hname]; rfl)) hbad
  by_cases hchecked : ∀ name ∈ (value.take 255).splitOn (ascii ','),
      Known table name
  · rw [or_iff_left (by simpa using hchecked)]
    refine ⟨length_le_of_exact env table value hvalue hchecked, fun hfits => ?_⟩
    have hvalid := (ndpiProtoListValid_iff table value).2 hchecked
    rw [List.take_of_length_le (by omega)] at hchecked
    refine ⟨fun _ text htext => ⟨?_, hchecked⟩, ?_⟩
    · rw [iptNdpi, if_neg hvalue, if_pos hvalid] at htext
      rw [← Option.mem_some.1 htext]
      apply List.take_of_length_le
      rw [List.length_append]
      exact Nat.add_le_add_left hfits 17
    · rintro ⟨name, hname, hbad⟩
      exact absurd (hchecked name hname) hbad
  · have hnone : iptNdpi { env with ndpiProtos := some table } value =
        none := by
      rw [iptNdpi, if_neg hvalue,
        if_neg (mt (ndpiProtoListValid_iff table value).1 hchecked)]
    rw [hnone]
    refine iff_of_true ⟨fun _ text htext => ?_, fun _ => rfl⟩ (.inr ?_)
    · cases htext
    · simpa using hchecked

end

def sixtyNames : Bytes :=
  [ascii ','].intercalate (List.replicate 60 (bytes "all"))

/-- The option for sixty names loses its last character. -/
theorem iptNdpi_sixtyNames :
    ¬ Exact [(bytes "http", true)] sixtyNames
      (iptNdpi ⟨[], false, some [(bytes "http", true)], fun _ af => af⟩
        sixtyNames) := by
  have hlength : sixtyNames.length = 239 := rfl
  have hnames : (sixtyNames.take 255).splitOn (ascii ',') =
      List.replicate 60 (bytes "all") := by
    rw [List.take_of_length_le (by omega), sixtyNames]
    exact List.splitOn_intercalate _ (by decide) (by decide)
  intro hexact
  have hfits := length_le_of_exact ⟨[], false, none, fun _ af => af⟩ _ _
    (by decide) ?_ hexact
  · omega
  intro name hname
  rw [hnames] at hname
  rw [List.eq_of_mem_replicate hname]
  exact .inr (.inl rfl)

/-- The characters that `ipt_ndpi_host` takes: no blanks, no quotes, no
backslash and no separators. -/
def hostChar (char : Byte) : Bool :=
  33 ≤ char && char ≤ 126 && char ≠ 34 && char ≠ 39 && char ≠ 92 &&
    char ≠ ascii '<' && char ≠ ascii '>' && char ≠ ascii '|'

def ndpiHostnameMax : ℕ := 128

/-- Whether `ipt_ndpi_host` narrows the match in `opt`. -/
def hostUsable (opt host : Bytes) : Bool :=
  host ≠ [] && opt ≠ [] && host.length < ndpiHostnameMax &&
    host.all hostChar && opt.length + (bytes " --host " ++ host).length < 256

/-- `ipt_ndpi_host`: what is written behind `opt`. -/
def iptNdpiHost (opt host : Bytes) : Bytes :=
  if hostUsable opt host then bytes " --host " ++ host else []

/-- `ndpi_proto_dissector`, or nothing without a name or a table. -/
def ndpiProtoDissector (name : Bytes) : Option Bool :=
  if name = [] then none
  else
    protos.map fun table =>
      ((table.find? fun entry => equalNoCase entry.1 name).map Prod.snd).getD
        false

def ndpiProtoListDissector (value : Bytes) : Bool :=
  ((value.take 255).splitOn (ascii ',')).all fun name =>
    name = [] || (name.head? ≠ some (ascii '-') && name ≠ bytes "all" &&
      ndpiProtoDissector protos name = some true)

def ndpiHostProtocols : Bytes :=
  (bytes ",").intercalate
    ([bytes "tls", bytes "quic", bytes "http", bytes "dns"].filter fun name =>
      ndpiProtoDissector protos name = some true)

def iptNdpiInprogress (value : Bytes) : Bytes :=
  let named :=
    if value = bytes "all" then ndpiHostProtocols env.ndpiProtos else value
  let opt := bytes " -m ndpi --inprogress " ++ named
  if value = [] ∨ named = [] then []
  else if ndpiProtoListDissector env.ndpiProtos named ∧ opt.length < 256 then
    opt
  else []

/-! ## Addresses -/

/-- `sscanf(s, "%91[class]-%91[class]", p, p) == 2` -/
def scanRange (accepts : Byte → Bool) (text : Bytes) : Bool :=
  let first := (text.take 91).takeWhile accepts
  first ≠ [] &&
    match text.drop first.length with
    | 45 :: char :: _ => accepts char
    | _ => false

def dottedChar (char : Byte) : Bool :=
  isDigit char || char = ascii '.'

def colonChar (char : Byte) : Bool :=
  isDigitOf 16 char || char = ascii ':'

/-- The option that `ipt_addr` prints for an address before it is cut. -/
def addrOption (dir text : Bytes) : Bytes :=
  if text = [] then []
  else if scanRange dottedChar text ∨ scanRange colonChar text then
    bytes "-m iprange --" ++ dir ++ bytes "-range " ++ text
  else bytes "-" ++ dir.take 1 ++ bytes " " ++ text

/-- `ipt_addr` with a buffer of 192 bytes: the tables for which the address is
of use. -/
def iptAddr (text : Bytes) (af : Families) (strict : Bool) : Families :=
  let found : Families :=
    if text = [] then ⟨true, true⟩
    else if scanRange dottedChar text then ⟨true, false⟩
    else if scanRange colonChar text then ⟨false, true⟩
    else
      let host := (text.take 91).takeWhile (· ≠ ascii '/')
      if host = [] then ⟨false, false⟩
      else env.hostAddrtypes host (if strict then af else ⟨true, true⟩)
  found.inter af

def Families.isNone (families : Families) : Bool :=
  !families.v4 && !families.v6

/-! ## Entries of the match list -/

structure Entry where
  pproto : Bytes
  dir : Bytes
  pport : Bytes
  ndpi : Bytes
  ndpiHost : Bytes
  addrType : Bytes
  addr : Bytes
deriving DecidableEq

/-- The fields of an entry.  One of six fields has no host. -/
def readEntry (text : Bytes) : Option Entry :=
  match text.splitOn (ascii '<') with
  | [pproto, dir, pport, ndpi, addrType, addr] =>
    some ⟨pproto, dir, pport, ndpi, [], addrType, addr⟩
  | pproto :: dir :: pport :: ndpi :: ndpiHost :: addrType :: addr :: _ =>
    some ⟨pproto, dir, pport, ndpi, ndpiHost, addrType, addr⟩
  | _ => none

variable (entry : Entry)

def Entry.dirIs (char : Char) : Bool :=
  entry.dir.head? = some (ascii char)

/-- What the source makes of an entry: the options for the address and for
nDPI, and the tables. -/
structure Usable where
  addr : Bytes
  ndpi : Bytes
  host : Bytes
  families : Families

/-- The direction that the type of the address stands for. -/
def Entry.addrDir : Option Bytes :=
  if entry.addrType.head? = some (ascii '1') then some (bytes "dst")
  else if entry.addrType.head? = some (ascii '2') then some (bytes "src")
  else none

/-- An entry with a direction, a protocol that nDPI knows and an address that
is of use. -/
def Entry.usable : Option Usable :=
  if entry.dirIs 'a' || entry.dirIs 's' || entry.dirIs 'd' ||
      entry.dirIs 'x' then
    (iptNdpi env entry.ndpi).bind fun app =>
      let host := iptNdpiHost app entry.ndpiHost
      let af : Families := ⟨true, app = []⟩
      match entry.addrDir with
      | none => some ⟨[], app, host, af⟩
      | some dir =>
        let families := iptAddr env entry.addr af (app ≠ [])
        if families.isNone then none
        else some ⟨(addrOption dir entry.addr).take 191, app, host, families⟩
  else none

/-- The option for the ports before it is cut. -/
def Entry.portsOption : Bytes :=
  if entry.dirIs 'a' ∨ entry.pport = [] then []
  else if entry.dirIs 'x' then bytes "-m multiport --ports " ++ entry.pport
  else if ascii ',' ∈ entry.pport then
    bytes "-m multiport --" ++ entry.dir ++ bytes "ports " ++ entry.pport
  else bytes "--" ++ entry.dir ++ bytes "port " ++ entry.pport

/-- The protocols of an entry and its ports, one for each line. -/
def Entry.protocols (ports : Bytes) : List (List Test) :=
  let proto := atoi entry.pproto
  if proto ≤ -2 then [[]]
  else if proto = 6 then [.option (bytes "-p tcp") :: optionOf ports]
  else if proto = 17 then [.option (bytes "-p udp") :: optionOf ports]
  else if proto = -1 then
    [.option (bytes "-p tcp") :: optionOf ports,
      .option (bytes "-p udp") :: optionOf ports]
  else [[.option (bytes "-p " ++ decimal proto.toNat)]]

/-- The lines of an entry.  With "All except ..." there are lines for the flows
that nDPI still looks at. -/
def Entry.lines (isAllow : Bool) (entry : Entry) (use : Usable) : List Line :=
  let target : Target := if isAllow then .ret else .drop
  let ports := entry.portsOption.take 255
  let detecting :=
    if isAllow && use.ndpi ≠ [] then iptNdpiInprogress env entry.ndpi else []
  (entry.protocols ports).map (fun tests =>
      ⟨tests ++ optionOf use.addr ++ optionOf use.ndpi ++ optionOf use.host,
        target, use.families⟩) ++
    if detecting = [] then []
    else
      (entry.protocols ports).map fun tests =>
        ⟨tests ++ optionOf use.addr ++ optionOf detecting, target,
          use.families⟩

/-! ## Web requests -/

/-- The characters that are made blanks in the web text. -/
def webText (http : Bytes) : Bytes :=
  http.map fun char =>
    if char = 9 ∨ char = 13 ∨ char = 10 ∨ char = 34 then ascii ' ' else char

/-- The last blank of a text, from a place on backwards, but not at its
start. -/
def lastBlank (text : Bytes) : ℕ → Option ℕ
  | 0 => none
  | index + 1 =>
    if text.getD (index + 1) 0 = ascii ' ' then some (index + 1)
    else lastBlank text index

def webLimit : ℕ := 510

/-- The pieces of the web text, cut at blanks.  A word that is too long ends
them. -/
def webChunks (text : Bytes) : List Bytes :=
  if text = [] then []
  else if webLimit < text.length then
    match lastBlank text webLimit with
    | none => []
    | some index => text.take index :: webChunks (text.drop (index + 1))
  else [text]
termination_by text.length
decreasing_by
  rw [List.length_drop]
  omega

/-- The file types as they are collected in `app`.  The second one is copied
over the first. -/
def fileTypes (httpFile : BitVec 32) : Bytes :=
  let first := if httpFile.getLsbD 0 then bytes ".ocx$ .cab$ " else []
  let second := if httpFile.getLsbD 1 then bytes ".swf$ " else first
  second ++ if httpFile.getLsbD 2 then bytes ".class$ .jar$" else []

def tcp : Test :=
  .option (bytes "-p tcp")

def Env.webPorts : Test :=
  .option (bytes "-m multiport --dports " ++ env.rrulewp)

/-- `tgt_web` -/
def Rule.webTarget (rule : Rule) : Target :=
  if rule.isAllow then .ret else .reject

def Rule.webLines (rule : Rule) : List Line :=
  (webChunks (webText rule.http)).map fun chunk =>
    ⟨[tcp, .web (bytes "hore") chunk], rule.webTarget, ⟨true, false⟩⟩

def Rule.fileLines (rule : Rule) : List Line :=
  if fileTypes rule.httpFile = [] then []
  else
    [⟨[tcp, env.webPorts, .web (bytes "path") (fileTypes rule.httpFile)],
      rule.webTarget, ⟨true, false⟩⟩]

/-- With "All except ..." the requests that were not allowed are rejected, and
the packets without a request are let through. -/
def Rule.requestLines (rule : Rule) : List Line :=
  if rule.isAllow && (rule.webLines ++ rule.fileLines env) ≠ [] &&
      env.rrulewp ≠ [] then
    [⟨[tcp, env.webPorts, .option (bytes "-m web --http")], .reject,
        ⟨true, false⟩⟩,
      ⟨[tcp, env.webPorts], .ret, ⟨true, false⟩⟩]
  else []

/-! ## The chains of a rule -/

def Rule.entries (rule : Rule) : List Entry :=
  (rule.matchList.splitOn (ascii '>')).filterMap readEntry

def Rule.entryLines (rule : Rule) : List Line :=
  rule.entries.flatMap fun entry =>
    match entry.usable env with
    | none => []
    | some use => entry.lines env rule.isAllow use

/-- `blockall`, which every criterion of use clears. -/
def Rule.blockall (rule : Rule) : Bool :=
  rule.entries.all (fun entry => (entry.usable env).isNone) &&
    rule.webLines = [] && rule.fileLines env = []

def everywhere : Families := ⟨true, true⟩

/-- The lines of `rresNN`. -/
def Rule.resLines (rule : Rule) : List Line :=
  rule.entryLines env ++ rule.webLines ++ rule.fileLines env ++
    rule.requestLines env ++
    (if rule.isAllow && !rule.blockall env then [⟨[], .drop, everywhere⟩]
      else []) ++
    if rule.comps = [] ∧ rule.blockall env then [⟨[], .drop, everywhere⟩]
    else []

/-- The option for a device and the tables, or nothing for one that is of no
use. -/
def deviceOption (device : Bytes) : Option (Bytes × Families) :=
  if (scanFields 16 2 (ascii ':') 5 device).isSome then
    some ((bytes "-m mac --mac-source " ++ device).take 191, everywhere)
  else
    let families := iptAddr env device everywhere false
    if families.isNone then none
    else some ((addrOption (bytes "src") device).take 191, families)

/-- The lines for the devices.  Behind a `!` the devices are exceptions. -/
def deviceLines (env : Env) (next : Target) : Bool → List Bytes → List Line
  | ex, [] => if ex then [⟨[], next, everywhere⟩] else []
  | ex, device :: devices =>
    if device.head? = some (ascii '!') then
      deviceLines env next true devices
    else
      match deviceOption env device with
      | none => deviceLines env next ex devices
      | some (text, families) =>
        ⟨optionOf text, if ex then .ret else next, families⟩ ::
          deviceLines env next ex devices

def Rule.devices (rule : Rule) : List Bytes :=
  (rule.comps.splitOn (ascii '>')).filter (· ≠ [])

/-- The chains of a rule: `rresNN` and, for a rule about some devices,
`rdevNN`. -/
structure Chains where
  res : List Line
  dev : Option (List Line)

def Rule.chains (rule : Rule) : Chains where
  res := rule.resLines env
  dev :=
    if rule.comps = [] then none
    else
      some (deviceLines env (if rule.blockall env then .drop else .goto) false
        rule.devices)

end Tomato64.Restrictions
