import Tomato64.Core.Shell
import Tomato64.Rc.Wireguard

/-!
# Routing scripts of a WireGuard unit

The start of a unit writes a script with the routing commands and a second one
that undoes them.  `wg_script_add` formats one line after the other; the lines
of the stop script are put in front of each other in a buffer.  The routes come
from the allowed IPs of the peers, and the mode of the unit decides what is
written for them.

A line is kept together with the pieces that it is made of.  The functions at
the head of the scripts are left out: they hold no setting.
-/

namespace Tomato64.WgScript

open Text Scan Shared Shell
open Wireguard

/-- What `ip route show` prints for the bridges and for the main table.  A
route of the main table is missing where it is too long for the buffer. -/
structure Env where
  bridges : List (Fin 8 × Bytes)
  routes : List (Option Bytes)
  hasDomains : Bool
  bridges_plain : ∀ bridge ∈ bridges, bridge.2 ≠ [] ∧
    bridge.2.length ≤ 32 ∧ ∀ char ∈ bridge.2, isPlain char = true
  routes_plain : ∀ route, some route ∈ routes → ∀ char ∈ route,
    isPlain char = true ∨ isBlank char = true

/-! ## Peers -/

/-- An allowed IP as the routes are made of it. -/
structure Entry where
  route : Bytes
  isDefault : Bool
  route_length : route.length ≤ 31
deriving DecidableEq

/-- An allowed IP, cut to `buffer[BUF_SIZE_32]`, if it has a mask. -/
def readEntry (text : Bytes) : Option Entry :=
  match text.splitOn (ascii '/') with
  | _ :: mask :: _ =>
    some ⟨text.take 31, atoi mask = 0, List.length_take_le 31 text⟩
  | _ => none

/-- The allowed IPs of a peer, cut to `buffer[BUF_SIZE]`. -/
def readPeer (record : Bytes) : Option Bytes :=
  match record.splitOn (ascii '<') with
  | _ :: _ :: _ :: _ :: _ :: ip :: aip :: _ :: _ =>
    some <| List.take 255 <|
      if aip = [] then ip
      else if ip = [] then aip
      else ip ++ ascii ',' :: aip
  | _ => none

variable (nvram : Nvram) (unit : Fin wgInterfaceMax)

def entries : List Entry :=
  (((getNVRAMVar nvram unit "peers").splitOn (ascii '>')).filterMap
    readPeer).flatMap fun allowedIps =>
      (allowedIps.splitOn (ascii ',')).filterMap readEntry

/-- The type of routing and the table of `wg0_route`. -/
def routeSetting : ℤ × Option Bytes :=
  match (getNVRAMVar nvram unit "route").splitOn (ascii '|') with
  | [] => (1, none)
  | [kind] => if kind = [] then (1, none) else (atoi kind, none)
  | kind :: table :: _ =>
    if kind = [] then (1, none) else (atoi kind, some (table.take 31))

/-- The table that is handed on. -/
def routeTable : Option Bytes :=
  if (routeSetting nvram unit).1 = 1 then none else (routeSetting nvram unit).2

/-! ## Lines -/

/-- A line of a script: one that `wg_script_add` has formatted, one of the
epilog, or a route that is copied from the main table. -/
inductive Line where
  | command (pieces : List Piece)
  | epilog (pieces : List Piece)
  | copied (fwmark route : Bytes)
deriving DecidableEq

variable (fwmark : Bytes)

def copiedPieces : List Piece :=
  [.fixed (bytes "run_cmd ip route replace table"), .value fwmark]

/-- The text of a line.  `wg_script_add` formats into `line[BUF_SIZE]`. -/
def Line.text : Line → Bytes
  | .command pieces => (lineOf pieces).take 255
  | .epilog pieces => lineOf pieces
  | .copied fwmark route =>
    (lineOf (copiedPieces fwmark) ++ 32 :: route).take 255

/-- What `wg_script_ctx_t` collects.  The newest line of the stop script is the
first. -/
structure Context where
  start : List Line
  stop : List Line
  stopLen : ℕ
  policyConfigured : Bool
  defaultConfigured : Bool
  epilog : List Line
deriving DecidableEq

def Context.initial : Context :=
  ⟨[], [], 0, false, false, []⟩

def Context.lines (context : Context) : List Line :=
  context.start ++ context.epilog ++ context.stop

/-- `wg_script_add` for the start script. -/
def addStart (line : Line) (context : Context) : Context :=
  { context with start := context.start ++ [line] }

/-- `wg_script_add` for the stop script, whose buffer has 8192 bytes. -/
def addStop (line : Line) (context : Context) : Context :=
  if 8192 ≤ context.stopLen + line.text.length + 1 then context
  else
    { context with
      stop := line :: context.stop
      stopLen := context.stopLen + line.text.length + 1 }

def addAll (starts stops : List Line) (context : Context) : Context :=
  stops.foldl (fun context line => addStop line context)
    (starts.foldl (fun context line => addStart line context) context)

/-! ## The lines of a unit -/

def iface : Bytes :=
  bytes "wg" ++ decimal unit.val

/-- The text of `wg_route_peer` for the log. -/
def maskMessage : Bytes :=
  bytes "when using mask, check if the entry is correct (for the " ++
    bytes "/24-31 mask the last IP octet must be 0, for the /9-16 mask " ++
    bytes "the last two octets must be 0, etc.)"

def tablePieces : Option Bytes → List Piece
  | none => []
  | some table => [.fixed (bytes "table"), .value table]

variable (route : Bytes) (table : Option Bytes)

/-- `wg_route_peer(.., 1)` -/
def routePeerStart : Line :=
  .command <|
    [.fixed (bytes "run_cmd --msg"), .value (quoted maskMessage),
      .fixed (if table.isSome then bytes "ip route replace"
        else bytes "ip route add"),
      .value route, .fixed (bytes "dev"), .value (iface unit)] ++
      tablePieces table

/-- `wg_route_peer(.., 0)` -/
def routePeerStop : Line :=
  .command <|
    [.fixed (bytes "run_cmd ip route delete"), .value route,
      .fixed (bytes "dev"), .value (iface unit)] ++ tablePieces table

def snapshotStandard
    (context : Context) : Context :=
  addAll [routePeerStart unit route table] [routePeerStop unit route table]
    context

def flushCache : Line :=
  .command [.fixed (bytes "run_cmd ip route flush cache")]

def flushTable : Line :=
  .command [.fixed (bytes "run_cmd ip route flush table"), .value fwmark]

/-- The lines of `wg_snapshot_default` that are written once. -/
def defaultStops : List Line :=
  [flushCache, flushTable fwmark,
    .command
      [.fixed (bytes "run_cmd ip rule delete table main " ++
        bytes "suppress_prefixlength 0")],
    .command
      [.fixed (bytes "run_cmd ip rule delete not fwmark"), .value fwmark,
        .fixed (bytes "table"), .value fwmark]]

def defaultStarts : List Line :=
  [.command
    [.fixed (bytes "ip rule delete table main suppress_prefixlength 0"),
      .fixed (bytes "2>/dev/null || true")]]

def defaultEpilog : List Line :=
  [.epilog
      [.fixed (bytes "run_cmd ip rule add not fwmark"), .value fwmark,
        .fixed (bytes "table"), .value fwmark],
    .epilog
      [.fixed (bytes "run_cmd ip rule add table main suppress_prefixlength 0")]]

def snapshotDefault (context : Context) : Context :=
  let add := !context.defaultConfigured
  let context := addAll
    ((if add then defaultStarts else []) ++
      [routePeerStart unit route (some fwmark)])
    ((if add then defaultStops fwmark else []) ++
      [routePeerStop unit route (some fwmark)]) context
  { context with
    epilog := if add then defaultEpilog fwmark else context.epilog
    defaultConfigured := true }

def fwmarkMask : Bytes :=
  (fwmark ++ bytes "/0xf00").take 15

/-- `wgrouting_mark`, which is also the name of the set. -/
def wgroutingMark : Bytes :=
  (bytes "wgrouting" ++ fwmark).take 15

theorem length_wgroutingMark_le : (wgroutingMark fwmark).length ≤ 15 :=
  List.length_take_le ..

/-- `prio_buf` -/
def priority : Bytes :=
  if getNVRAMVar nvram unit "prio" = [] then decimal (100 + unit.val)
  else (getNVRAMVar nvram unit "prio").take 15

def logLine (level : String) (message : Bytes) : Line :=
  .command
    [.fixed (bytes "logger -p"), .fixed (bytes level),
      .fixed (bytes "-t \"$WG_TAG\""), .value (quoted message),
      .fixed (bytes "|| true")]

def modprobe (name : String) : Line :=
  .command
    [.fixed (bytes "modprobe"), .fixed (bytes name), .fixed (bytes "|| true")]

inductive Mode where
  | standard
  | default
  | policy
  | strict
deriving DecidableEq

def detectRoutingMode (isDefault : Bool) : Mode :=
  if isDefault = false then .standard
  else if atoi (getNVRAMVar nvram unit "rgwr") = 1 then .default
  else if atoi (getNVRAMVar nvram unit "rgwr") = 2 then .policy
  else if atoi (getNVRAMVar nvram unit "rgwr") = 3 then .strict
  else .standard

def copyRoute :
    Option Bytes → Line
  | some route => .copied fwmark route
  | none =>
    logLine "ERR" (bytes "route too long while creating wireguard " ++
      (bytes "routing table for " ++ iface unit))

variable (env : Env) (unit : Fin wgInterfaceMax) (fwmark : Bytes)

/-- `wg_init_table` in one of the two modes with a policy. -/
def initTable (mode : Mode) : List Line :=
  logLine "INFO" (bytes "creating wireguard (" ++ (iface unit ++
    (bytes ") routing table " ++ (fwmark ++
      bytes (if mode = .strict then " (mode 3)" else " (mode 2)"))))) ::
    env.routes.map (copyRoute unit fwmark)

def routeBridges : List Line :=
  env.bridges.map fun bridge =>
    .command
      [.fixed (bytes "run_cmd ip route replace"), .value bridge.2,
        .fixed (bytes "dev"), .value (bytes "br" ++ decimal bridge.1.val),
        .fixed (bytes "table"), .value fwmark]

def policyStarts (mode : Mode) : List Line :=
  [.command
      [.fixed (bytes "ip rule delete fwmark"), .value (fwmarkMask fwmark),
        .fixed (bytes "table"), .value fwmark,
        .fixed (bytes "2>/dev/null || true")],
    .command
      [.fixed (bytes "ip route flush table"), .value fwmark,
        .fixed (bytes "2>/dev/null || true")],
    .command
      [.fixed (bytes "run_cmd wg set"), .value (iface unit),
        .fixed (bytes "fwmark 0")],
    logLine "INFO" (bytes "starting routing policy for wireguard" ++
      (decimal unit.val ++ (bytes " - interface " ++ (iface unit ++
        (bytes " - table " ++ fwmark))))),
    modprobe "ip_set",
    modprobe "xt_set",
    modprobe "ip_set_hash_ip",
    .command
      [.fixed (bytes "run_cmd ip route replace default dev"),
        .value (iface unit), .fixed (bytes "table"), .value fwmark],
    .command
      [.fixed (bytes "run_cmd ip rule add fwmark"), .value (fwmarkMask fwmark),
        .fixed (bytes "table"), .value fwmark, .fixed (bytes "priority"),
        .value (priority nvram unit)]] ++
    initTable env unit fwmark mode ++ routeBridges env fwmark ++
    [.command
        [.fixed (bytes "run_cmd ipset create"), .value (wgroutingMark fwmark),
          .fixed (bytes "hash:ip")],
      flushCache,
      logLine "INFO" (bytes "completed routing policy configuration for " ++
        (bytes "wireguard - interface " ++ (iface unit ++
          (bytes " - table " ++ fwmark))))]

def policyStops : List Line :=
  (if env.hasDomains then
    [.command
      [.fixed (bytes "run_cmd ipset destroy"), .value (wgroutingMark fwmark)]]
    else []) ++
    [flushCache, flushTable fwmark,
      .command
        [.fixed (bytes "run_cmd ip rule delete fwmark"),
          .value (fwmarkMask fwmark), .fixed (bytes "table"), .value fwmark]]

/-- `wg_snapshot_policy`, which writes its lines once. -/
def snapshotPolicy (mode : Mode) (context : Context) : Context :=
  if context.policyConfigured then context
  else
    addAll (policyStarts nvram env unit fwmark mode) (policyStops env fwmark)
      { context with policyConfigured := true }

def snapshotRouteForEntry (context : Context) (entry : Entry) : Context :=
  let fwmark := wgSetFwmark nvram unit
  match detectRoutingMode nvram unit entry.isDefault with
  | .default => snapshotDefault unit fwmark entry.route context
  | .policy => snapshotPolicy nvram env unit fwmark .policy context
  | .strict => snapshotPolicy nvram env unit fwmark .strict context
  | .standard =>
    snapshotStandard unit entry.route (routeTable nvram unit) context

/-- The scripts of a unit, after `wg_route_peer_allowed_ips` for every peer. -/
def scripts : Context :=
  if (routeSetting nvram unit).1 ≤ 0 then .initial
  else
    (entries nvram unit).foldl (snapshotRouteForEntry nvram env unit) .initial

/-! ## Lines without injection -/

/-- The shell reads the line as the template means it, and expands no value. -/
def Safe : Line → Prop
  | .command pieces =>
    lex ((lineOf pieces).take 255) = some (pieces.flatMap Piece.tokens) ∧
      ∀ text, .value text ∈ pieces → expands .outside text = false
  | .epilog pieces =>
    lex (lineOf pieces) = some (pieces.flatMap Piece.tokens) ∧
      ∀ text, .value text ∈ pieces → expands .outside text = false
  | .copied fwmark route =>
    ∃ words : List Bytes,
      lex (Line.copied fwmark route).text =
        some ((copiedPieces fwmark).flatMap Piece.tokens ++
          words.map Token.word) ∧
      ∀ text ∈ fwmark :: words, expands .outside text = false

def InjectionFree : Prop :=
  ∀ line ∈ (scripts nvram env unit).lines, Safe line

end Tomato64.WgScript
