import Tomato64.Core.Stdio
import Tomato64.Httpd.ApiOutput
import Mathlib.Data.List.DropRight

/-!
# The JSON API

Each endpoint is the list of writer calls it makes.  Next to it stands the
document that these calls are meant to write, with the values that they are
given.

All strings but the members of lists are escaped.  `woApi_decodes_iff` says
that these lists are what a reply depends on: it is well formed and carries
the values it was given exactly when every list fits the buffer of `j_list`
and holds no character that needs an escape.
-/

namespace Tomato64.Api

open ApiOutput Json List Scan Split Stdio
open Text

/-- The results of `wlhelper_wif_channel_stats`. -/
structure ChannelStats where
  channel : ℤ
  mhz : ℤ
  nbw : ℤ
  noise : ℤ
  proto : Bytes

/-- An access point, with what the probes say of it. -/
structure Wif where
  phy : ℤ
  iface : ℤ
  ifname : Bytes
  radio : ℤ
  link : ℤ
  mloId : ℤ
  bssid : Option Bytes
  stats : Option ChannelStats
  stations : ℕ

/-- The counts of `statvfs`. -/
structure Statvfs where
  blocks : UInt64
  bfree : UInt64
  frsize : UInt64

structure Env where
  nvram : Bytes → Bytes
  file : Bytes → Option Bytes
  cpuModel : Bytes
  tomatoVersion : Bytes
  tomatoBuildtime : Bytes
  uptime : ℤ
  loads : Fin 3 → UInt64
  /-- The hundredths that `%.2f` prints of a quotient. -/
  hundredths : ℕ → ℕ → ℕ
  statvfs : Option Statvfs
  checkWanup : Bool
  wanface : Bytes
  wanupTime : ℤ
  resolveAddr : Bytes → Option Bytes
  wifs : List Wif
  pidof : Bytes → ℤ

def bridgeCount : ℕ := 8
def ovpnClientCount : ℕ := 3
def ovpnServerCount : ℕ := 4
def wgInterfaceCount : ℕ := 3
def ifnamsiz : ℕ := 16

/-- `snprintf` and `strlcpy` into a buffer. -/
def cut (size : ℕ) (text : Bytes) : Bytes :=
  text.take (size - 1)

def getBridgeNvramKey (bridge : ℕ) (suffix : String) : Bytes :=
  if bridge = 0 then bytes "lan_" ++ bytes suffix
  else bytes "lan" ++ decimal bridge ++ bytes "_" ++ bytes suffix

variable (env : Env)

def nvramGetInt (key : Bytes) : ℤ :=
  atoi (env.nvram key)

/-- The number behind the first line of this field. -/
def meminfoField (field : String) : UInt64 :=
  match env.file (bytes "/proc/meminfo") with
  | none => 0
  | some text =>
    match (lines (by decide : (1 : ℤ) < 128) text).find? fun line =>
        (bytes field ++ bytes ":").isPrefixOf line with
    | none => 0
    | some line => strtoul (line.drop (field.length + 1))

def cpuTempMc : ℤ :=
  match env.file (bytes "/sys/class/thermal/thermal_zone0/temp") with
  | none => -1
  | some text =>
    match fgets 32 text with
    | none => -1
    | some (line, _) => ((strtol line).map Prod.fst).getD 0

/-- The first line of an attribute without the blanks at its end, if anything
is left of it. -/
def apiNetdevSysfs (device : Bytes) (attr : String) (len : ℤ) : Option Bytes :=
  let path := cut 128 (bytes "/sys/class/net/" ++ device ++ bytes "/" ++
    bytes attr)
  match (env.file path).bind (fgets len) with
  | none => none
  | some (line, _) =>
    let text := (cstr line).rdropWhile fun char =>
      char = 10 || char = 13 || char = 32
    if text = [] then none else some text

/-! ## Endpoints -/

def apiRouter : List Step :=
  [jOpen (some "router"),
    jStr "name" (env.nvram (bytes "router_name")),
    jStr "model" (env.nvram (bytes "t_model_name")),
    jStr "cpu" env.cpuModel,
    jStr "firmware" env.tomatoVersion,
    jStr "build" env.tomatoBuildtime,
    jNum "uptime" env.uptime,
    jClose]

/-- `(long long)` of an `unsigned long`. -/
def signedLong (value : UInt64) : ℤ :=
  value.toInt64.toInt

def cpuTempCalls : List Step :=
  if 0 ≤ cpuTempMc env then
    [jReal "cpu_temp_c" (env.hundredths (cpuTempMc env).toNat 1000)]
  else [jNull "cpu_temp_c"]

def flashCalls : List Step :=
  match env.statvfs with
  | some vfs =>
    if 0 < vfs.blocks then
      [jNum "flash_total_kb" (signedLong (vfs.blocks * vfs.frsize / 1024)),
        jNum "flash_used_kb"
          (signedLong ((vfs.blocks - vfs.bfree) * vfs.frsize / 1024))]
    else []
  | none => []

def apiSystem : List Step :=
  let total := meminfoField env "MemTotal"
  let avail := meminfoField env "MemAvailable"
  let load index := env.hundredths (env.loads index).toNat 65536
  [jOpen (some "system"),
    jReal "load1" (load 0),
    jReal "load5" (load 1),
    jReal "load15" (load 2),
    jNum "mem_total_kb" (signedLong total),
    jNum "mem_avail_kb" (signedLong avail),
    jNum "mem_used_kb" (signedLong (if avail < total then total - avail else 0))] ++
  cpuTempCalls env ++ flashCalls env ++ [jClose]

def lanIfname (bridge : ℕ) : Bytes :=
  env.nvram (getBridgeNvramKey bridge "ifname")

def lanPorts (bridge : ℕ) : Bytes :=
  env.nvram (getBridgeNvramKey bridge "ifnames")

def bridgeUp (bridge : ℕ) : Bool :=
  match apiNetdevSysfs env (lanIfname env bridge) "operstate" 32 with
  | some state => state ≠ bytes "down"
  | none => false

def apiLan : List Step :=
  jArr "lan" :: ((range bridgeCount).flatMap fun bridge =>
    if lanIfname env bridge = [] then []
    else
      [jElem,
        jNum "index" bridge,
        jStr "ifname" (lanIfname env bridge),
        jStr "ipaddr" (env.nvram (getBridgeNvramKey bridge "ipaddr")),
        jStr "netmask" (env.nvram (getBridgeNvramKey bridge "netmask")),
        jList "ports" (lanPorts env bridge),
        jBool "up" (bridgeUp env bridge),
        jElemEnd]) ++
  [jArrEnd]

def wanDns : Bytes :=
  if env.nvram (bytes "wan_dns") ≠ [] then env.nvram (bytes "wan_dns")
  else env.nvram (bytes "wan_get_dns")

def apiWan : List Step :=
  [jOpen (some "wan"),
    jBool "up" env.checkWanup,
    jStr "iface" env.wanface,
    jStr "proto" (env.nvram (bytes "wan_proto")),
    jStr "ipaddr" (env.nvram (bytes "wan_ipaddr")),
    jStr "netmask" (env.nvram (bytes "wan_netmask")),
    jStr "gateway" (env.nvram (bytes "wan_gateway")),
    jList "dns" (wanDns env),
    jNum "uptime" (if env.checkWanup then env.wanupTime else 0),
    jClose]

def isLanIface (dev : Bytes) : Bool :=
  (range bridgeCount).any fun bridge =>
    lanIfname env bridge ≠ [] && lanIfname env bridge = dev

/-- A line of the ARP table. -/
structure ArpEntry where
  ip : Bytes
  flags : ℕ
  mac : Bytes
  dev : Bytes

/-- `sscanf(line, "%23s %*s 0x%X %17s %*s %23s", ip, &flags, mac, dev) == 4`. -/
def scanArp (line : Bytes) : Option ArpEntry := do
  let (ip, rest) ← scanWord 23 line
  let (_, rest) ← scanWord rest.length rest
  let rest := rest.dropWhile isSpace
  if (bytes "0x").isPrefixOf rest then
    let (flags, rest) ← scanNumber 16 rest.length (rest.drop 2)
    let (mac, rest) ← scanWord 17 rest
    let (_, rest) ← scanWord rest.length rest
    let (dev, _) ← scanWord 23 rest
    some ⟨ip, toUnsigned flags, mac, dev⟩
  else none

/-- The entries that are listed as clients. -/
def clientOf (line : Bytes) : Option ArpEntry :=
  (scanArp (cstr line)).filter fun entry =>
    entry.flags ≠ 0 && entry.mac.length = 17 &&
      entry.mac ≠ bytes "00:00:00:00:00:00" && isLanIface env entry.dev

def clients : List ArpEntry :=
  match env.file (bytes "/proc/net/arp") with
  | none => []
  | some text => (lines (by decide : (1 : ℤ) < 256) text).filterMap (clientOf env)

/-- The short name of a client, or nothing where only its address is known. -/
def hostname (ip : Bytes) : Bytes :=
  match env.resolveAddr ip with
  | none => []
  | some host => if host = ip then [] else host.takeWhile (· ≠ 46)

def apiClients : List Step :=
  jOpen (some "clients") :: jArr "list" ::
  ((clients env).flatMap fun entry =>
    [jElem,
      jStr "ip" entry.ip,
      jStr "mac" entry.mac,
      jStr "iface" entry.dev,
      jStr "hostname" (hostname env entry.ip),
      jElemEnd]) ++
  [jArrEnd,
    jNum "count" (clients env).length,
    jClose]

def wifiKey (wif : Wif) (suffix : String) : Bytes :=
  bytes "wifi_phy" ++ numText wif.phy ++ bytes "iface" ++ numText wif.iface ++
    bytes suffix

def apiWirelessIface (wif : Wif) : List Step :=
  [jElem,
    jNum "phy" wif.phy,
    jNum "iface" wif.iface,
    jStr "ifname" wif.ifname,
    jNum "radio" wif.radio] ++
  (if 0 ≤ wif.link then [jNum "link" wif.mloId] else []) ++
  [jStr "essid" (env.nvram (wifiKey wif "_essid")),
    jStr "encryption" (env.nvram (wifiKey wif "_encryption")),
    jStr "network" (env.nvram (wifiKey wif "_network")),
    jBool "hidden" (nvramGetInt env (wifiKey wif "_hidden") ≠ 0),
    jStr "band"
      (env.nvram (bytes "wifi_phy" ++ numText wif.radio ++ bytes "_band"))] ++
  (match wif.bssid with
  | some mac => [jStr "bssid" mac]
  | none => []) ++
  (match wif.stats with
  | some stats =>
    [jNum "channel" stats.channel,
      jNum "mhz" stats.mhz,
      jNum "width" stats.nbw,
      jNum "noise" stats.noise,
      jStr "proto" stats.proto]
  | none => []) ++
  [jNum "stations" wif.stations,
    jElemEnd]

def apiWireless : List Step :=
  jArr "wireless" :: env.wifs.flatMap (apiWirelessIface env) ++ [jArrEnd]

def apiPortIndex (device : Bytes) : ℤ :=
  let digits := device.dropWhile fun char => !isDigit char
  if digits = [] then -1 else atoi digits

/-- `devices` has room for 16 names. -/
def addDevice (devices : List Bytes) (token : Bytes) : List Bytes :=
  if 16 ≤ devices.length then devices
  else if !(bytes "eth").isPrefixOf token then devices
  else if token ∈ devices then devices
  else devices ++ [cut ifnamsiz token]

/-- One turn of the insertion sort, which looks for the place from behind. -/
def insertDevice (sorted : List Bytes) (device : Bytes) : List Bytes :=
  let larger other := decide (apiPortIndex device < apiPortIndex other)
  sorted.rdropWhile larger ++ device :: sorted.rtakeWhile larger

def portWan : Bytes :=
  cut ifnamsiz env.wanface

def portDevices : List Bytes :=
  let found := (range bridgeCount).foldl
    (fun devices bridge =>
      (words 32 (cut 256 (lanPorts env bridge))).foldl addDevice devices)
    (if portWan env = [] then [] else [portWan env])
  found.foldl insertDevice []

/-- A chassis port, with what the loop over the ports works out for it. -/
structure Port where
  device : Bytes
  isWan : Bool
  isSfp : Bool
  label : Bytes

def portOf (device : Bytes) : Port where
  device := device
  isWan := portWan env ≠ [] && device = portWan env
  isSfp := match apiNetdevSysfs env device "of_node/label" 64 with
    | some label => (splitAtKey (bytes "sfp") (label.map toLower)).isSome
    | none => false
  label := env.nvram (cut 16 (bytes "port" ++ numText (apiPortIndex device) ++
    bytes "_label"))

variable (port : Port)

/-- Ports without a name of their own are counted. -/
def Port.isPlain : Bool :=
  port.label = [] && !port.isWan && !port.isSfp

variable (lanports : ℕ)

def Port.name : Bytes :=
  if port.label ≠ [] then cut 32 port.label
  else if port.isWan then bytes "WAN"
  else if port.isSfp then bytes "SFP+"
  else cut 32 (bytes "LAN " ++ decimal lanports)

def Port.role : String :=
  if port.isWan then "wan" else if port.isSfp then "sfp" else "lan"

def Port.isUp : Bool :=
  match apiNetdevSysfs env port.device "carrier" 64 with
  | some text => text.head? = some 49
  | none => false

/-- The speed, where it is known and positive. -/
def Port.speed (env : Env) (port : Port) : Option ℤ :=
  ((apiNetdevSysfs env port.device "speed" 64).map atoi).filter (0 < ·)

def Port.duplex (env : Env) (port : Port) : Option Bytes :=
  apiNetdevSysfs env port.device "duplex" 64

def numbered : ℕ → List Port → List (Port × ℕ)
  | _, [] => []
  | lanports, port :: ports =>
    let lanports := if port.isPlain then lanports + 1 else lanports
    (port, lanports) :: numbered lanports ports

def apiPort : List Step :=
  [jElem,
    jStr "device" port.device,
    jNum "port" (apiPortIndex port.device),
    jStr "name" (port.name lanports),
    jStr "role" (bytes port.role),
    jBool "up" (port.isUp env),
    match port.speed env with
    | some speed => jNum "speed" speed
    | none => jNull "speed",
    match port.duplex env with
    | some duplex => jStr "duplex" duplex
    | none => jNull "duplex",
    jElemEnd]

def ports : List (Port × ℕ) :=
  numbered 0 ((portDevices env).map (portOf env))

def apiPorts : List Step :=
  jArr "ports" :: (ports env).flatMap (fun port => apiPort env port.1 port.2) ++
    [jArrEnd]

def apiVpnListed (list : String) (num : ℕ) : Bool :=
  (words 44 (cut 32 (env.nvram (bytes list)))).any fun cur => atoi cur = num

/-- The arguments of `api_vpn_entry`. -/
structure VpnEntry where
  kind : String
  service : Bytes
  num : ℕ
  name : Bytes
  enabled : Bool
  up : Bool

def apiVpnEntry (entry : VpnEntry) : List Step :=
  [jElem,
    jStr "kind" (bytes entry.kind),
    jStr "service" entry.service,
    jNum "index" entry.num,
    jStr "name" entry.name,
    jBool "enabled" entry.enabled,
    jBool "up" entry.up,
    jElemEnd]

def wgStatus (iface : Bytes) : Bool :=
  let path := bytes "/sys/class/net/" ++ iface ++ bytes "/operstate"
  match (env.file (cut 64 path)).bind (fgets 64) with
  | some (line, _) =>
    let state := (cstr line).takeWhile (· ≠ 10)
    state = bytes "unknown" || state = bytes "up"
  | none => false

/-- An OpenVPN client or server. -/
def ovpnEntry (kind service name list : String) (num : ℕ) :
    VpnEntry where
  kind := kind
  service := bytes service ++ decimal num
  num := num
  name := bytes name ++ decimal num
  enabled := apiVpnListed env list num
  up := 0 < env.pidof (bytes service ++ decimal num)

def wgEntry (num : ℕ) : VpnEntry where
  kind := "wireguard"
  service := bytes "wireguard" ++ decimal num
  num := num
  name := bytes "WireGuard " ++ decimal num
  enabled := nvramGetInt env (bytes "wg" ++ decimal num ++ bytes "_enable") = 1
  up := wgStatus env (bytes "wg" ++ decimal num)

def vpnEntries : List VpnEntry :=
  (range ovpnClientCount).map (fun index =>
    ovpnEntry env "openvpn-client" "vpnclient" "OpenVPN client " "vpnc_eas"
      (index + 1)) ++
  (range ovpnServerCount).map (fun index =>
    ovpnEntry env "openvpn-server" "vpnserver" "OpenVPN server " "vpns_eas"
      (index + 1)) ++
  (range wgInterfaceCount).map (wgEntry env)

def apiVpn : List Step :=
  jArr "vpn" :: (vpnEntries env).flatMap apiVpnEntry ++ [jArrEnd]

/-! ## Routing -/

/-- The functions that `api_one` takes. -/
inductive Part
  | router
  | system
  | lan
  | wan
  | clients
  | wireless
  | vpn
  | ports

def Part.calls : Part → List Step
  | .router => apiRouter env
  | .system => apiSystem env
  | .lan => apiLan env
  | .wan => apiWan env
  | .clients => apiClients env
  | .wireless => apiWireless env
  | .vpn => apiVpn env
  | .ports => apiPorts env

def apiVersion : ℤ := 1

def apiStatus : List Step :=
  [jOpen none, jNum "api" apiVersion] ++ apiRouter env ++ apiSystem env ++
    apiLan env ++ apiWan env ++ apiClients env ++ apiWireless env ++
    apiPorts env ++ apiVpn env ++ [jClose]

def apiPing : List Step :=
  [jOpen none, jNum "api" apiVersion, jBool "ok" true, jClose]

def apiOne (part : List Step) : List Step :=
  [jOpen none, jNum "api" apiVersion] ++ part ++ [jClose]

def apiError (message : String) : List Step :=
  [jOpen none, jStr "error" (bytes message), jClose]

inductive Route
  | status
  | ping
  | one (part : Part)
  | error (message : String)

/-- The comparisons of `wo_api`. -/
def route (url : Bytes) : Route :=
  if (bytes "api/v1/").isPrefixOf url then
    let path := url.drop 7
    if path = bytes "status" then .status
    else if path = bytes "ping" then .ping
    else if path = bytes "router" then .one .router
    else if path = bytes "system" then .one .system
    else if path = bytes "lan" then .one .lan
    else if path = bytes "wan" then .one .wan
    else if path = bytes "clients" then .one .clients
    else if path = bytes "wireless" then .one .wireless
    else if path = bytes "vpn" then .one .vpn
    else if path = bytes "ports" then .one .ports
    else .error "no such endpoint"
  else .error "unsupported api version"

def Route.calls : Route → List Step
  | .status => apiStatus env
  | .ping => apiPing
  | .one part => apiOne (part.calls env)
  | .error message => apiError message

/-- The body of the reply. -/
def woApi (url : Bytes) : Bytes :=
  (run ((route url).calls env) ⟨false, []⟩).body

/-! ## The documents that are meant -/

def routerDoc : Doc :=
  .object (.ofList [
    (⟨"name", by decide⟩, .text (env.nvram (bytes "router_name"))),
    (⟨"model", by decide⟩, .text (env.nvram (bytes "t_model_name"))),
    (⟨"cpu", by decide⟩, .text env.cpuModel),
    (⟨"firmware", by decide⟩, .text env.tomatoVersion),
    (⟨"build", by decide⟩, .text env.tomatoBuildtime),
    (⟨"uptime", by decide⟩, .number env.uptime)])

def flashMembers : List (Name × Doc) :=
  match env.statvfs with
  | some vfs =>
    if 0 < vfs.blocks then
      [(⟨"flash_total_kb", by decide⟩,
          .number (signedLong (vfs.blocks * vfs.frsize / 1024))),
        (⟨"flash_used_kb", by decide⟩,
          .number (signedLong ((vfs.blocks - vfs.bfree) * vfs.frsize / 1024)))]
    else []
  | none => []

def cpuTempDoc : Doc :=
  if 0 ≤ cpuTempMc env then
    .real (env.hundredths (cpuTempMc env).toNat 1000)
  else .null

def systemDoc : Doc :=
  let total := meminfoField env "MemTotal"
  let avail := meminfoField env "MemAvailable"
  let load index := env.hundredths (env.loads index).toNat 65536
  .object (.ofList ([
    (⟨"load1", by decide⟩, .real (load 0)),
    (⟨"load5", by decide⟩, .real (load 1)),
    (⟨"load15", by decide⟩, .real (load 2)),
    (⟨"mem_total_kb", by decide⟩, .number (signedLong total)),
    (⟨"mem_avail_kb", by decide⟩, .number (signedLong avail)),
    (⟨"mem_used_kb", by decide⟩,
      .number (signedLong (if avail < total then total - avail else 0))),
    (⟨"cpu_temp_c", by decide⟩, cpuTempDoc env)] ++ flashMembers env))

def bridgeMembers (bridge : ℕ) : Members :=
  .ofList [
    (⟨"index", by decide⟩, .number bridge),
    (⟨"ifname", by decide⟩, .text (lanIfname env bridge)),
    (⟨"ipaddr", by decide⟩,
      .text (env.nvram (getBridgeNvramKey bridge "ipaddr"))),
    (⟨"netmask", by decide⟩,
      .text (env.nvram (getBridgeNvramKey bridge "netmask"))),
    (⟨"ports", by decide⟩, .list (lanPorts env bridge)),
    (⟨"up", by decide⟩, .flag (bridgeUp env bridge))]

/-- The bridges that are configured. -/
def bridges : List ℕ :=
  (range bridgeCount).filter fun bridge => lanIfname env bridge ≠ []

def lanDoc : Doc :=
  .array (.ofList ((bridges env).map (bridgeMembers env)))

def wanDoc : Doc :=
  .object (.ofList [
    (⟨"up", by decide⟩, .flag env.checkWanup),
    (⟨"iface", by decide⟩, .text env.wanface),
    (⟨"proto", by decide⟩, .text (env.nvram (bytes "wan_proto"))),
    (⟨"ipaddr", by decide⟩, .text (env.nvram (bytes "wan_ipaddr"))),
    (⟨"netmask", by decide⟩, .text (env.nvram (bytes "wan_netmask"))),
    (⟨"gateway", by decide⟩, .text (env.nvram (bytes "wan_gateway"))),
    (⟨"dns", by decide⟩, .list (wanDns env)),
    (⟨"uptime", by decide⟩,
      .number (if env.checkWanup then env.wanupTime else 0))])

def clientMembers (entry : ArpEntry) : Members :=
  .ofList [
    (⟨"ip", by decide⟩, .text entry.ip),
    (⟨"mac", by decide⟩, .text entry.mac),
    (⟨"iface", by decide⟩, .text entry.dev),
    (⟨"hostname", by decide⟩, .text (hostname env entry.ip))]

def clientsDoc : Doc :=
  .object (.ofList [
    (⟨"list", by decide⟩,
      .array (.ofList ((clients env).map (clientMembers env)))),
    (⟨"count", by decide⟩, .number (clients env).length)])

def wifMembers (wif : Wif) : List (Name × Doc) :=
  [(⟨"phy", by decide⟩, .number wif.phy),
    (⟨"iface", by decide⟩, .number wif.iface),
    (⟨"ifname", by decide⟩, .text wif.ifname),
    (⟨"radio", by decide⟩, .number wif.radio)] ++
  (if 0 ≤ wif.link then [(⟨"link", by decide⟩, .number wif.mloId)] else []) ++
  [(⟨"essid", by decide⟩, .text (env.nvram (wifiKey wif "_essid"))),
    (⟨"encryption", by decide⟩, .text (env.nvram (wifiKey wif "_encryption"))),
    (⟨"network", by decide⟩, .text (env.nvram (wifiKey wif "_network"))),
    (⟨"hidden", by decide⟩,
      .flag (nvramGetInt env (wifiKey wif "_hidden") ≠ 0)),
    (⟨"band", by decide⟩, .text
      (env.nvram (bytes "wifi_phy" ++ numText wif.radio ++ bytes "_band")))] ++
  (wif.bssid.toList.map fun mac => (⟨"bssid", by decide⟩, .text mac)) ++
  (wif.stats.toList.flatMap fun stats =>
    [(⟨"channel", by decide⟩, .number stats.channel),
      (⟨"mhz", by decide⟩, .number stats.mhz),
      (⟨"width", by decide⟩, .number stats.nbw),
      (⟨"noise", by decide⟩, .number stats.noise),
      (⟨"proto", by decide⟩, .text stats.proto)]) ++
  [(⟨"stations", by decide⟩, .number wif.stations)]

def wirelessDoc : Doc :=
  .array (.ofList (env.wifs.map fun wif => .ofList (wifMembers env wif)))

def portMembers : Members :=
  .ofList [
    (⟨"device", by decide⟩, .text port.device),
    (⟨"port", by decide⟩, .number (apiPortIndex port.device)),
    (⟨"name", by decide⟩, .text (port.name lanports)),
    (⟨"role", by decide⟩, .text (bytes port.role)),
    (⟨"up", by decide⟩, .flag (port.isUp env)),
    (⟨"speed", by decide⟩, ((port.speed env).map Doc.number).getD .null),
    (⟨"duplex", by decide⟩, ((port.duplex env).map Doc.text).getD .null)]

def portsDoc : Doc :=
  .array (.ofList ((ports env).map fun port => portMembers env port.1 port.2))

def vpnMembers (entry : VpnEntry) : Members :=
  .ofList [
    (⟨"kind", by decide⟩, .text (bytes entry.kind)),
    (⟨"service", by decide⟩, .text entry.service),
    (⟨"index", by decide⟩, .number entry.num),
    (⟨"name", by decide⟩, .text entry.name),
    (⟨"enabled", by decide⟩, .flag entry.enabled),
    (⟨"up", by decide⟩, .flag entry.up)]

def vpnDoc : Doc :=
  .array (.ofList ((vpnEntries env).map vpnMembers))

def Part.name : Part → Name
  | .router => ⟨"router", by decide⟩
  | .system => ⟨"system", by decide⟩
  | .lan => ⟨"lan", by decide⟩
  | .wan => ⟨"wan", by decide⟩
  | .clients => ⟨"clients", by decide⟩
  | .wireless => ⟨"wireless", by decide⟩
  | .vpn => ⟨"vpn", by decide⟩
  | .ports => ⟨"ports", by decide⟩

def Part.doc : Part → Doc
  | .router => routerDoc env
  | .system => systemDoc env
  | .lan => lanDoc env
  | .wan => wanDoc env
  | .clients => clientsDoc env
  | .wireless => wirelessDoc env
  | .vpn => vpnDoc env
  | .ports => portsDoc env

def versionMember : Name × Doc :=
  (⟨"api", by decide⟩, .number apiVersion)

/-- The order of the parts in a status reply. -/
def statusParts : List Part :=
  [.router, .system, .lan, .wan, .clients, .wireless, .ports, .vpn]

def Route.members : Route → Members
  | .status =>
    .ofList (versionMember :: statusParts.map fun part =>
      (part.name, part.doc env))
  | .ping => .ofList [versionMember, (⟨"ok", by decide⟩, .flag true)]
  | .one part => .ofList [versionMember, (part.name, part.doc env)]
  | .error message => .ofList [(⟨"error", by decide⟩, .text (bytes message))]

/-! ## The calls write these documents -/

/-- An array whose elements are written in a loop. -/
theorem steps_array {α : Type*} (name : String) (values : List α)
    (members : α → Members) :
    (Doc.array (.ofList (values.map members))).steps name =
      jArr name :: values.flatMap (fun value => (members value).element) ++
        [jArrEnd] := by
  rw [Doc.steps, Elements.steps_ofList, flatMap_map]
  rfl

theorem flashCalls_eq :
    flashCalls env = (flashMembers env).flatMap fun member =>
      member.2.steps member.1.text := by
  rw [flashCalls, flashMembers]
  split
  · split <;> rfl
  · rfl

theorem cpuTempCalls_eq :
    cpuTempCalls env = (cpuTempDoc env).steps "cpu_temp_c" := by
  rw [cpuTempCalls, cpuTempDoc]
  split <;> rfl

theorem apiSystem_eq : apiSystem env = (systemDoc env).steps "system" := by
  rw [systemDoc, Doc.steps, Members.steps_ofList, flatMap_append,
    ← flashCalls_eq, apiSystem, cpuTempCalls_eq]
  simp [Doc.steps]

theorem apiLan_eq : apiLan env = (lanDoc env).steps "lan" := by
  rw [lanDoc, steps_array, bridges, apiLan]
  congr 2
  induction range bridgeCount with
  | nil => rfl
  | cons bridge rest ih =>
    rw [flatMap_cons, ih, filter_cons]
    by_cases hifname : lanIfname env bridge = []
    · simp [hifname]
    · rw [if_neg hifname, if_pos (by simpa using hifname), flatMap_cons]
      rfl

theorem apiClients_eq : apiClients env = (clientsDoc env).steps "clients" := by
  rw [clientsDoc, Doc.steps, Members.steps_ofList, flatMap_cons,
    steps_array, apiClients]
  simp [Doc.steps, clientMembers, Members.element, Members.steps_ofList]

theorem apiWirelessIface_eq (wif : Wif) :
    apiWirelessIface env wif =
      (Members.ofList (wifMembers env wif)).element := by
  rw [Members.element, Members.steps_ofList, apiWirelessIface, wifMembers]
  cases wif.bssid <;> cases wif.stats <;>
    simp [Doc.steps, apply_ite (List.flatMap _)]

theorem apiWireless_eq :
    apiWireless env = (wirelessDoc env).steps "wireless" := by
  rw [wirelessDoc, steps_array, apiWireless]
  congr 3
  funext wif
  exact apiWirelessIface_eq env wif

theorem apiPort_eq :
    apiPort env port lanports = (portMembers env port lanports).element := by
  rw [apiPort, portMembers, Members.element, Members.steps_ofList]
  cases port.speed env <;> cases port.duplex env <;> rfl

theorem apiPorts_eq : apiPorts env = (portsDoc env).steps "ports" := by
  rw [portsDoc, steps_array, apiPorts]
  simp only [apiPort_eq]

theorem apiVpn_eq : apiVpn env = (vpnDoc env).steps "vpn" := by
  rw [vpnDoc, steps_array, apiVpn]
  rfl

theorem Part.calls_eq (part : Part) :
    part.calls env = (part.doc env).steps part.name.text := by
  cases part with
  | router => rfl
  | system => exact apiSystem_eq env
  | lan => exact apiLan_eq env
  | wan => rfl
  | clients => exact apiClients_eq env
  | wireless => exact apiWireless_eq env
  | vpn => exact apiVpn_eq env
  | ports => exact apiPorts_eq env

theorem Route.calls_eq (path : Route) :
    path.calls env = (path.members env).reply := by
  cases path with
  | status =>
    rw [Route.calls, Route.members, Members.reply, Members.steps_ofList]
    simp [apiStatus, statusParts, versionMember, ← Part.calls_eq, Part.calls,
      Doc.steps]
  | ping => rfl
  | one part =>
    rw [Route.calls, Route.members, Members.reply, Members.steps_ofList]
    simp [apiOne, versionMember, ← Part.calls_eq, Doc.steps]
  | error message => rfl

/-! ## What a reply depends on -/

/-- The values that `j_list` is given. -/
def Part.lists : Part → List Bytes
  | .lan => (bridges env).map (lanPorts env)
  | .wan => [wanDns env]
  | _ => []

def Route.lists : Route → List Bytes
  | .status => statusParts.flatMap (Part.lists env)
  | .one part => part.lists env
  | _ => []

theorem clean_array {α : Type*} (values : List α) (members : α → Members) :
    (Doc.array (.ofList (values.map members))).Clean ↔
      ∀ value ∈ values, (members value).Clean := by
  rw [Doc.Clean, Elements.clean_ofList, forall_mem_map]

theorem clean_object (members : List (Name × Doc)) :
    (Doc.object (.ofList members)).Clean ↔
      ∀ member ∈ members, member.2.Clean := by
  rw [Doc.Clean, Members.clean_ofList]

theorem clean_systemDoc : (systemDoc env).Clean := by
  have hflash : ∀ member ∈ flashMembers env, member.2.Clean := by
    rw [flashMembers]
    split
    · split <;> simp [Doc.Clean]
    · simp
  have htemp : (cpuTempDoc env).Clean := by
    rw [cpuTempDoc]
    split <;> simp [Doc.Clean]
  rw [systemDoc, clean_object, forall_mem_append]
  exact ⟨by simpa [Doc.Clean] using htemp, hflash⟩

theorem clean_lanDoc :
    (lanDoc env).Clean ↔ ∀ bridge ∈ bridges env,
      ListClean (lanPorts env bridge) := by
  rw [lanDoc, clean_array]
  refine forall₂_congr fun bridge _ => ?_
  simp [bridgeMembers, Members.clean_ofList, Doc.Clean]

theorem clean_clientsDoc : (clientsDoc env).Clean := by
  have hclients : (Doc.array (.ofList ((clients env).map
      (clientMembers env)))).Clean := by
    rw [clean_array]
    intro entry _
    simp [clientMembers, Members.clean_ofList, Doc.Clean]
  rw [clientsDoc, clean_object]
  simpa using ⟨hclients, trivial⟩

theorem clean_wirelessDoc : (wirelessDoc env).Clean := by
  rw [wirelessDoc, clean_array]
  intro wif _
  rw [Members.clean_ofList, wifMembers]
  by_cases hlink : 0 ≤ wif.link <;> cases wif.bssid <;> cases wif.stats <;>
    simp [hlink, Doc.Clean]

theorem clean_portsDoc : (portsDoc env).Clean := by
  rw [portsDoc, clean_array]
  intro port _
  rw [portMembers, Members.clean_ofList]
  cases port.1.speed env <;> cases port.1.duplex env <;> simp [Doc.Clean]

theorem clean_vpnDoc : (vpnDoc env).Clean := by
  rw [vpnDoc, clean_array]
  intro entry _
  simp [vpnMembers, Members.clean_ofList, Doc.Clean]

theorem Part.clean_iff (part : Part) :
    (part.doc env).Clean ↔ ∀ value ∈ part.lists env, ListClean value := by
  cases part with
  | router => simp [Part.doc, Part.lists, routerDoc, clean_object, Doc.Clean]
  | system => simp [Part.doc, Part.lists, clean_systemDoc]
  | lan => rw [Part.doc, Part.lists, clean_lanDoc, forall_mem_map]
  | wan => simp [Part.doc, Part.lists, wanDoc, clean_object, Doc.Clean]
  | clients => simp [Part.doc, Part.lists, clean_clientsDoc]
  | wireless => simp [Part.doc, Part.lists, clean_wirelessDoc]
  | vpn => simp [Part.doc, Part.lists, clean_vpnDoc]
  | ports => simp [Part.doc, Part.lists, clean_portsDoc]

theorem Route.clean_iff (path : Route) :
    (path.members env).Clean ↔ ∀ value ∈ path.lists env, ListClean value := by
  cases path with
  | status =>
    rw [Route.members, Members.clean_ofList, forall_mem_cons,
      forall_mem_map, Route.lists, forall_mem_flatMap]
    simp only [Part.clean_iff, versionMember, Doc.Clean, true_and]
  | ping => simp [Route.members, Route.lists, Members.clean_ofList,
      versionMember, Doc.Clean]
  | one part =>
    rw [Route.members, Members.clean_ofList, Route.lists, ← Part.clean_iff]
    simp [versionMember, Doc.Clean]
  | error message => simp [Route.members, Route.lists, Members.clean_ofList,
      Doc.Clean]

/-- A reply is one JSON document with the values that its writers were given
exactly when the lists in it can be written as they stand. -/
theorem woApi_decodes_iff (env : Env) (url : Bytes) :
    parseDocument (woApi env url) =
        some (.obj ((route url).members env).values) ↔
      ∀ value ∈ (route url).lists env, ListClean value := by
  rw [woApi, Route.calls_eq, parseDocument_reply_iff, Route.clean_iff]

/-- A router whose only bridge has a port with a quote in its name. -/
def quotedPort : Env where
  nvram key :=
    if key = bytes "lan_ifname" then bytes "br0"
    else if key = bytes "lan_ifnames" then bytes "eth\"0"
    else []
  file _ := none
  cpuModel := []
  tomatoVersion := []
  tomatoBuildtime := []
  uptime := 0
  loads _ := 0
  hundredths _ _ := 0
  statvfs := none
  checkWanup := false
  wanface := []
  wanupTime := 0
  resolveAddr _ := none
  wifs := []
  pidof _ := 0

/-- The name closes its string early and the reply is no JSON text. -/
theorem woApi_quotedPort_malformed :
    (parseDocument (woApi quotedPort (bytes "api/v1/lan"))).isNone := by
  decide +kernel

end Tomato64.Api
