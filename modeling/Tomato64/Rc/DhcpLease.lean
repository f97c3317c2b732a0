import Tomato64.Core.Run
import Tomato64.Core.Scan
import Tomato64.Core.Split

/-!
# Leases of the WAN

`bound` and `renew` store the options of a DHCP lease in NVRAM variables and
install the routes among them, for a WAN whose protocol is DHCP or LTE.
`env2nv` leaves a variable alone when its option is missing.  `bound` clears
the variables of the routes first, but not those of the name servers and the
domain, and `renew` clears none.
-/

namespace Tomato64.DhcpLease

open Run Scan Split Text

/-- A route as it is handed to the kernel. -/
structure Route where
  ipaddr : Bytes
  gateway : Bytes
  bits : ℤ
  deriving DecidableEq, Repr

/-- `IP[/MASK] ROUTER`; without a usable mask it is a host route. -/
def parseRoute (target gateway : Bytes) : Route :=
  match splitFirst 47 target with
  | none => ⟨target, gateway, 32⟩
  | some (ipaddr, nmask) =>
    let bits := atoi nmask
    ⟨ipaddr, gateway, if 1 ≤ bits ∧ bits ≤ 32 then bits else 32⟩

def pairRoutes : List Bytes → List Route
  | target :: gateway :: words =>
    (if gateway ≠ [] then [parseRoute target gateway] else []) ++
      pairRoutes words
  | _ => []

def wanRoutes (routes : Bytes) : List Route :=
  pairRoutes (routes.splitOn 32)

def routeAdd (table : List Route) (route : Route) : List Route :=
  if route ∈ table then table else table ++ [route]

def routeDel (table : List Route) (route : Route) : List Route :=
  table.filter (· ≠ route)

/-! ## The variables -/

/-- The options of a lease, as the client hands them over. -/
structure Lease where
  ip : Option Bytes
  subnet : Option Bytes
  router : Option Bytes
  staticroutes : Option Bytes
  msstaticroutes : Option Bytes
  routes : Option Bytes
  dns : Option Bytes
  domain : Option Bytes
  deriving DecidableEq, Repr

/-- The variables of the WAN and the static routes of its interface. -/
structure Wan where
  ipaddr : Bytes
  netmask : Bytes
  gateway : Bytes
  getDns : Bytes
  getDomain : Bytes
  routes1 : Bytes
  routes2 : Bytes
  installed : List Route
  deriving DecidableEq, Repr

/-- `dhcpc_121` and `dhcpc_33`. -/
structure Config where
  dhcpc121 : Bool
  dhcpc33 : Bool

def start : Wan := ⟨[], [], [], [], [], [], [], []⟩

/-- The value of the variable, and whether it has changed. -/
def env2nv (env : Option Bytes) (nv : Bytes) : Bytes × Bool :=
  match env with
  | none => (nv, false)
  | some value => (value, decide (nv ≠ value))

/-- The gateway of the default route among classless routes. -/
def defaultGateway : List Bytes → Option Bytes
  | word :: gateway :: words =>
    if word = bytes "0.0.0.0/0" then
      if gateway ≠ [] then some gateway else defaultGateway words
    else defaultGateway (gateway :: words)
  | _ => none

def env2nvGateway (lease : Lease) (nv : Bytes) : Bytes × Bool :=
  match lease.router with
  | some router => env2nv (some (router.takeWhile (· ≠ 32))) nv
  | none =>
    env2nv (lease.staticroutes.bind fun routes =>
      defaultGateway (routes.splitOn 32)) nv

variable (config : Config)

def variableRoutes (routes1 routes2 : Bytes) : List Route :=
  (if config.dhcpc121 then wanRoutes routes1 else []) ++
    if config.dhcpc33 then wanRoutes routes2 else []

def doWanRoutes (add : Bool) (wan : Wan) : Wan :=
  { wan with
    installed := (variableRoutes config wan.routes1 wan.routes2).foldl
      (if add then routeAdd else routeDel) wan.installed }

/-- The interface loses its routes when it is given its address. -/
def bound (lease : Lease) (wan : Wan) : Wan :=
  let first := env2nv lease.staticroutes []
  doWanRoutes config true
    { ipaddr := (env2nv lease.ip wan.ipaddr).1
      netmask := lease.subnet.getD (bytes "255.255.255.255")
      gateway := (env2nvGateway lease wan.gateway).1
      getDns := (env2nv lease.dns wan.getDns).1
      getDomain := (env2nv lease.domain wan.getDomain).1
      routes1 :=
        if first.2 then first.1 else (env2nv lease.msstaticroutes first.1).1
      routes2 := (env2nv lease.routes []).1
      installed := [] }

/-- A renewal that keeps the address. -/
def renewKept (lease : Lease) (wan : Wan) : Wan :=
  let routes1Save :=
    env2nv (lease.staticroutes.or lease.msstaticroutes) wan.routes1
  let routes2Save := env2nv lease.routes wan.routes2
  let wan := { wan with
    getDomain := (env2nv lease.domain wan.getDomain).1
    getDns := (env2nv lease.dns wan.getDns).1 }
  if routes1Save.2 || routes2Save.2 then
    doWanRoutes config true
      { doWanRoutes config false wan with
        routes1 := routes1Save.1, routes2 := routes2Save.1 }
  else wan

def renew (lease : Lease) (wan : Wan) : Wan :=
  let ip := env2nv lease.ip wan.ipaddr
  let gateway := env2nvGateway lease wan.gateway
  let netmask := env2nv lease.subnet wan.netmask
  if ip.2 then bound config lease { wan with ipaddr := ip.1 }
  else if gateway.2 then bound config lease { wan with gateway := gateway.1 }
  else if netmask.2 then bound config lease { wan with netmask := netmask.1 }
  else renewKept config lease wan

inductive Event
  | bound (lease : Lease)
  | renew (lease : Lease)
  deriving DecidableEq, Repr

def Event.lease : Event → Lease
  | .bound lease => lease
  | .renew lease => lease

def step (wan : Wan) : Event → Wan
  | .bound lease => bound config lease wan
  | .renew lease => renew config lease wan

/-! ## Independence of the past -/

/-- The variables and routes are those of another state. -/
structure SameLease (left right : Wan) : Prop where
  dns : left.getDns = right.getDns
  domain : left.getDomain = right.getDomain
  routes1 : left.routes1 = right.routes1
  routes2 : left.routes2 = right.routes2
  installed : ∀ route, route ∈ left.installed ↔ route ∈ right.installed

/-- After the event everything is as if the lease had been the first one. -/
def Fresh (wan : Wan) (event : Event) : Prop :=
  SameLease (step config wan event) (bound config event.lease start)

/-- The lease has the option, or the variable is empty. -/
def Renewed (option : Option Bytes) (stored : Bytes) : Prop :=
  option = none → stored = []

/-- The renewal is handled as a new lease. -/
def Rebinds (lease : Lease) (wan : Wan) : Prop :=
  (env2nv lease.ip wan.ipaddr).2 = true ∨
    (env2nvGateway lease wan.gateway).2 = true ∨
    (env2nv lease.subnet wan.netmask).2 = true

/-- No variable keeps the value of an option that the lease does not have: for
the name servers and the domain in every event, for the routes in a renewal
that keeps address, gateway and netmask.  Such a renewal takes empty classless
routes for an answer, a new lease does not. -/
def Fits (wan : Wan) (event : Event) : Prop :=
  Renewed event.lease.dns wan.getDns ∧
    Renewed event.lease.domain wan.getDomain ∧
    match event with
    | .bound _ => True
    | .renew lease => Rebinds lease wan ∨
        Renewed (lease.staticroutes.or lease.msstaticroutes) wan.routes1 ∧
        (lease.staticroutes = some [] → lease.msstaticroutes.getD [] = []) ∧
        Renewed lease.routes wan.routes2

/-! ## The routing table -/

theorem mem_foldl_routeAdd (routes table : List Route) (route : Route) :
    route ∈ routes.foldl routeAdd table ↔ route ∈ table ∨ route ∈ routes := by
  induction routes generalizing table with
  | nil => simp
  | cons first routes ih => grind [routeAdd]

theorem mem_foldl_routeDel (routes table : List Route) (route : Route) :
    route ∈ routes.foldl routeDel table ↔ route ∈ table ∧ route ∉ routes := by
  induction routes generalizing table with
  | nil => simp
  | cons first routes ih => grind [routeDel]

/-- The routes of the interface are those of the variables. -/
def Installed (wan : Wan) : Prop :=
  ∀ route, route ∈ wan.installed ↔
    route ∈ variableRoutes config wan.routes1 wan.routes2

variable {config}

theorem installed_bound (lease : Lease) (wan : Wan) :
    Installed config (bound config lease wan) := by
  intro route
  simp [bound, doWanRoutes, mem_foldl_routeAdd]

theorem installed_renewKept {wan : Wan} (hwan : Installed config wan)
    (lease : Lease) : Installed config (renewKept config lease wan) := by
  intro route
  rw [renewKept]
  split
  · -- the old routes go before the new ones come
    have hold := hwan route
    simp [doWanRoutes, mem_foldl_routeAdd, mem_foldl_routeDel, hold]
  · exact hwan route

theorem renew_cases (lease : Lease) (wan : Wan) :
    (Rebinds lease wan ∧ ∃ before : Wan, before.getDns = wan.getDns ∧
        before.getDomain = wan.getDomain ∧
        renew config lease wan = bound config lease before) ∨
      ¬ Rebinds lease wan ∧
        renew config lease wan = renewKept config lease wan := by
  unfold renew Rebinds
  grind

theorem installed_step {wan : Wan} (hwan : Installed config wan)
    (event : Event) : Installed config (step config wan event) := by
  cases event with
  | bound lease => exact installed_bound lease wan
  | renew lease =>
    rcases @renew_cases config lease wan with
      ⟨-, before, -, -, hrenew⟩ | ⟨-, hrenew⟩
    · rw [step, hrenew]
      exact installed_bound lease before
    · rw [step, hrenew]
      exact installed_renewKept hwan lease

/-! ## The variables after an event -/

theorem env2nv_eq_iff (env : Option Bytes) (nv : Bytes) :
    (env2nv env nv).1 = (env2nv env []).1 ↔ Renewed env nv := by
  cases env with
  | none => simp [env2nv, Renewed]
  | some value => simp [env2nv, Renewed]

theorem env2nv_eq_of_unchanged {env : Option Bytes} {nv : Bytes}
    (hnv : (env2nv env nv).2 = false) : (env2nv env nv).1 = nv := by
  cases env with
  | none => rfl
  | some value =>
    rw [env2nv, decide_eq_false_iff_not, ne_eq, not_not] at hnv
    exact hnv.symm

/-- A renewal that keeps the address stores the options it has. -/
theorem renewKept_variables (lease : Lease) (wan : Wan) :
    (renewKept config lease wan).getDns = (env2nv lease.dns wan.getDns).1 ∧
      (renewKept config lease wan).getDomain =
        (env2nv lease.domain wan.getDomain).1 ∧
      (renewKept config lease wan).routes1 =
        (env2nv (lease.staticroutes.or lease.msstaticroutes) wan.routes1).1 ∧
      (renewKept config lease wan).routes2 =
        (env2nv lease.routes wan.routes2).1 := by
  rw [renewKept]
  split
  · exact ⟨rfl, rfl, rfl, rfl⟩
  · rename_i hchanged
    rw [Bool.or_eq_true, not_or, Bool.not_eq_true, Bool.not_eq_true] at hchanged
    exact ⟨rfl, rfl, (env2nv_eq_of_unchanged hchanged.1).symm,
      (env2nv_eq_of_unchanged hchanged.2).symm⟩

/-- The classless routes are those of a new lease. -/
theorem routes1_eq_iff (lease : Lease) (wan : Wan) :
    (env2nv (lease.staticroutes.or lease.msstaticroutes) wan.routes1).1 =
        (bound config lease start).routes1 ↔
      Renewed (lease.staticroutes.or lease.msstaticroutes) wan.routes1 ∧
        (lease.staticroutes = some [] → lease.msstaticroutes.getD [] = []) := by
  rcases hstatic : lease.staticroutes with _ | _ | _ <;>
    rcases hms : lease.msstaticroutes with _ | _ <;>
    simp [bound, doWanRoutes, env2nv, Renewed, hstatic, hms, eq_comm]

/-- With the routes of the variables installed, the variables decide. -/
theorem sameLease_iff {left right : Wan} (hleft : Installed config left)
    (hright : Installed config right) :
    SameLease left right ↔ left.getDns = right.getDns ∧
      left.getDomain = right.getDomain ∧ left.routes1 = right.routes1 ∧
      left.routes2 = right.routes2 := by
  constructor
  · intro hsame
    exact ⟨hsame.dns, hsame.domain, hsame.routes1, hsame.routes2⟩
  · rintro ⟨hdns, hdomain, hroutes1, hroutes2⟩
    refine ⟨hdns, hdomain, hroutes1, hroutes2, fun route => ?_⟩
    rw [hleft route, hright route, hroutes1, hroutes2]

theorem sameLease_bound_iff (lease : Lease) (wan : Wan) :
    SameLease (bound config lease wan) (bound config lease start) ↔
      Renewed lease.dns wan.getDns ∧ Renewed lease.domain wan.getDomain := by
  rw [sameLease_iff (installed_bound lease wan) (installed_bound lease start),
    ← env2nv_eq_iff, ← env2nv_eq_iff]
  exact ⟨fun h => ⟨h.1, h.2.1⟩, fun h => ⟨h.1, h.2, rfl, rfl⟩⟩

theorem sameLease_renewKept_iff {wan : Wan} (hwan : Installed config wan)
    (lease : Lease) :
    SameLease (renewKept config lease wan) (bound config lease start) ↔
      Renewed lease.dns wan.getDns ∧ Renewed lease.domain wan.getDomain ∧
        (Renewed (lease.staticroutes.or lease.msstaticroutes) wan.routes1 ∧
          (lease.staticroutes = some [] →
            lease.msstaticroutes.getD [] = [])) ∧
        Renewed lease.routes wan.routes2 := by
  obtain ⟨hdns, hdomain, hroutes1, hroutes2⟩ :=
    @renewKept_variables config lease wan
  rw [sameLease_iff (installed_renewKept hwan lease)
    (installed_bound lease start), hdns, hdomain, hroutes1, hroutes2,
    routes1_eq_iff, ← env2nv_eq_iff lease.dns, ← env2nv_eq_iff lease.domain,
    ← env2nv_eq_iff lease.routes]
  rfl

/-- One event, from a state whose routes are those of its variables. -/
theorem fresh_iff_fits {wan : Wan} (hwan : Installed config wan)
    (event : Event) : Fresh config wan event ↔ Fits wan event := by
  cases event with
  | bound lease =>
    rw [Fits, and_true]
    exact sameLease_bound_iff lease wan
  | renew lease =>
    rw [Fresh, Fits, step, Event.lease]
    rcases @renew_cases config lease wan with
      ⟨hrebinds, before, hdns, hdomain, hrenew⟩ | ⟨hkeeps, hrenew⟩
    · rw [hrenew, sameLease_bound_iff, hdns, hdomain]
      simp [hrebinds]
    · rw [hrenew, sameLease_renewKept_iff hwan]
      simp [hkeeps, and_assoc]

theorem installed_start : Installed config start := by
  intro route
  cases config with
  | mk dhcpc121 dhcpc33 =>
    cases dhcpc121 <;> cases dhcpc33 <;>
      simp [start, variableRoutes, wanRoutes, pairRoutes]

/-- In every sequence of events, each one leaves what its lease alone would
have left exactly if none meets a stored option that its lease lacks. -/
theorem along_fresh_iff (config : Config) (events : List Event) :
    Along (step config) (Fresh config) start events ↔
      Along (step config) Fits start events :=
  along_congr (fun _ event hwan _ => installed_step hwan event)
    (fun _ event hwan => fresh_iff_fits hwan event) installed_start

/-- A first lease with a name server and a route. -/
def firstLease : Lease where
  ip := some (bytes "192.0.2.10")
  subnet := some (bytes "255.255.255.0")
  router := some (bytes "192.0.2.1")
  staticroutes := some (bytes "10.0.0.0/8 192.0.2.2")
  msstaticroutes := none
  routes := none
  dns := some (bytes "192.0.2.53")
  domain := none

/-- The renewal of a lease without its name server and its route keeps
both. -/
theorem not_fresh_renew :
    ¬ Along (step ⟨true, true⟩) (Fresh ⟨true, true⟩) start
      [.bound firstLease,
        .renew { firstLease with dns := none, staticroutes := none }] := by
  rintro ⟨-, hrenew, -⟩
  have hdns := hrenew.dns
  revert hdns
  decide

end Tomato64.DhcpLease
