import Tomato64.Core.LockFile

/-!
# The firewall lock

The functions that take the lock `firewall`, as programs of steps at the lock.
`start_firewall` sleeps between its attempts to load the rules while it has the
lock.  The start and the stop of a WireGuard unit ask init for a restart of the
firewall while they have it, and init takes the same lock for that.
-/

namespace Tomato64.FirewallLock

open LockFile LockFile.Instr Run

variable (pid : ℕ)

def simpleLockTries : ℕ :=
  5 + pid % 10

/-! ## The programs -/

/-- A loop of three attempts to load rules, with a longer sleep after each one
that fails. -/
def restoreFrom (results : ℕ → Bool) : ℕ → ℕ → List Instr
  | 0, _ => [work]
  | left + 1, n =>
    work ::
      if results n then [work]
      else sleep (n * n) :: restoreFrom results left (n + 1)

def restoreRules (results : ℕ → Bool) : List Instr :=
  restoreFrom results 3 1

/-- A function that runs a firewall script with the lock: those for the servers
of pptp, ftp, nginx, transmission and tinc, and `mwan_pbr_update`. -/
def runLocked : List Instr := [lock, work, unlock]

/-- What `start_firewall` meets: the seconds until it has the lock
`restrictions`, whether the files can be created, whether IPv6 is on, the
seconds until the UPnP server has saved its rules, and the results of the
attempts to load the rules. -/
structure FirewallRun where
  restrictionsWait : ℕ
  iptFile : Bool
  ipv6Enabled : Bool
  ip6tFile : Bool
  upnpWait : ℕ
  restore : ℕ → Bool
  restore6 : ℕ → Bool

def startFirewall (run : FirewallRun) : List Instr :=
  [lock, sleep run.restrictionsWait, work] ++
    if !run.iptFile || run.ipv6Enabled && !run.ip6tFile then [unlock]
    else
      [work, sleep run.upnpWait] ++ (restoreRules run.restore ++
        ((if run.ipv6Enabled then restoreRules run.restore6 else [work]) ++
          -- the servers' scripts, those of OpenVPN and WireGuard without a
          -- lock, then the rest of the function
          ([work, unlock, work] ++ (runLocked ++ (runLocked ++
            (runLocked ++ (runLocked ++ ([work] ++ (runLocked ++
              ([work] ++ runLocked))))))))))

def mwanPbrUpdate (wanUnit : ℤ) : List Instr :=
  if wanUnit < 1 ∨ 4 < wanUnit then [] else runLocked

/-- What `stop_wireguard` meets: whether it is called again for the unit, the
seconds until the child of a start has ended, and the variables
`restart_dnsmasq` and `restart_fw`. -/
structure WgStop where
  serialized : Bool
  childWait : ℕ
  restartDnsmasq : Bool
  restartFw : Bool
  firewall : FirewallRun

def stopWireguard (stop : WgStop) : List Instr :=
  if stop.serialized then []
  else
    [sleep stop.childWait, work] ++ (runLocked ++ ([work] ++
      ((if stop.restartDnsmasq then
          if pid = 1 then [work] else [ask, ask]
        else []) ++
        if stop.restartFw then
          lock :: ((if pid = 1 then startFirewall stop.firewall
            else [ask, ask]) ++ [unlock])
        else [])))

/-- What the child of `start_wireguard` meets: its delay, whether the script of
the unit or one of the firewall scripts fails, the variables, and the stop of
the unit after a failure. -/
structure WgStart where
  delay : ℕ
  scriptFails : Bool
  firewallFails : Bool
  restartDnsmasq : Bool
  restartFw : Bool
  stop : WgStop

def startWireguard (start : WgStart) : List Instr :=
  [sleep start.delay, work] ++
    if start.scriptFails then stopWireguard pid start.stop
    else if start.firewallFails then
      runLocked ++ stopWireguard pid start.stop
    else
      runLocked ++ ([work] ++
        ((if start.restartDnsmasq then [ask, ask] else []) ++
          if start.restartFw then [lock, ask, ask, unlock] else []))

inductive Job
  | startFirewall (run : FirewallRun)
  | mwanPbrUpdate (wanUnit : ℤ)
  | startWireguard (start : WgStart)
  | stopWireguard (stop : WgStop)

def program : Job → List Instr
  | .startFirewall run => startFirewall run
  | .mwanPbrUpdate wanUnit => mwanPbrUpdate wanUnit
  | .startWireguard start => startWireguard pid start
  | .stopWireguard stop => stopWireguard pid stop

/-- The processes of the router; init is process 1. -/
def lockStep : State → Event Job → State :=
  step program simpleLockTries

/-! ## Jobs that do not restart the firewall -/

def Job.restartFw : Job → Bool
  | .startFirewall _ => false
  | .mwanPbrUpdate _ => false
  | .startWireguard start => start.restartFw || start.stop.restartFw
  | .stopWireguard stop => stop.restartFw

theorem flat_restoreFrom (results : ℕ → Bool) (left n : ℕ) (inside : Bool)
    (back : List Instr) :
    flat inside (restoreFrom results left n ++ back) = flat inside back := by
  induction left generalizing n with
  | zero => rfl
  | succ left ih =>
    rw [restoreFrom]
    split
    · rfl
    · exact ih (n + 1)

theorem flat_startFirewall (run : FirewallRun) :
    flat false (startFirewall run) = true := by
  rw [startFirewall]
  split
  · rfl
  change flat true (restoreRules run.restore ++ _) = true
  rw [restoreRules, flat_restoreFrom]
  split
  · rw [restoreRules, flat_restoreFrom]
    rfl
  · rfl

theorem flat_stopWireguard {stop : WgStop} (hrestart : stop.restartFw = false) :
    flat false (stopWireguard pid stop) = true := by
  rw [stopWireguard, hrestart]
  cases stop.serialized <;> cases stop.restartDnsmasq <;>
    by_cases hinit : pid = 1 <;> simp [hinit, runLocked, flat]

theorem flat_startWireguard {start : WgStart}
    (hrestart : start.restartFw = false)
    (hstop : start.stop.restartFw = false) :
    flat false (startWireguard pid start) = true := by
  have hrollback := flat_stopWireguard pid hstop
  have hlocked : flat false runLocked = true := rfl
  rw [startWireguard, hrestart]
  split
  · exact hrollback
  · split
    · exact flat_append hlocked hrollback
    · refine flat_append hlocked ?_
      cases start.restartDnsmasq <;> rfl

theorem flat_program {job : Job} (hjob : job.restartFw = false) :
    flat false (program pid job) = true := by
  cases job with
  | startFirewall run => exact flat_startFirewall run
  | mwanPbrUpdate wanUnit =>
    rw [program, mwanPbrUpdate]
    split <;> rfl
  | startWireguard start =>
    rw [Job.restartFw, Bool.or_eq_false_iff] at hjob
    exact flat_startWireguard pid hjob.1 hjob.2
  | stopWireguard stop => exact flat_stopWireguard pid hjob

/-! ## The lock -/

/-- No WireGuard unit restarts the firewall, and no process makes its last try
at the lock while another one has it. -/
def Fits (state : State) : Event Job → Prop
  | .begin _ job => job.restartFw = false
  | .step pid => (state.procs pid).delay = 0 →
      (state.procs pid).todo.head? = some .lock →
        state.free = true ∨
          1 < (state.procs pid).tries.getD (simpleLockTries pid)
  | _ => True

theorem patient_of_fits (state : State) (event : Event Job)
    (hfits : Fits state event) :
    Patient program simpleLockTries state event := by
  cases event with
  | begin pid job => exact flat_program pid hfits
  | step pid => exact hfits
  | answer pid => trivial
  | tick => trivial

/-- In runs of such jobs no two processes have the lock, and none waits for it
in vain. -/
theorem safe_of_fits (events : List (Event Job))
    (hevents : Along lockStep Fits start events) (front : List (Event Job))
    (hfront : front <+: events) : Safe 1 (front.foldl lockStep start) :=
  safe_of_patient program simpleLockTries 1
    (hevents.imp fun state event _ => patient_of_fits state event) hfront

/-- Two updates of the routing by marks.  The second one finds the lock taken
and waits. -/
def contendingRun : List (Event Job) :=
  [.begin 20 (.mwanPbrUpdate 1), .step 20, .begin 21 (.mwanPbrUpdate 2),
    .step 21]

theorem safe_of_fits_contending :
    Along lockStep Fits start contendingRun ∧
      ((contendingRun.foldl lockStep start).procs 20).depth = 1 ∧
      ((contendingRun.foldl lockStep start).procs 21).tries = some 5 ∧
      Safe 1 (contendingRun.foldl lockStep start) := by
  have hfits : Along lockStep Fits start contendingRun :=
    ⟨rfl, fun _ _ => .inl rfl, rfl, fun _ _ => .inr (by decide), trivial⟩
  exact ⟨hfits, by decide, by decide,
    safe_of_fits contendingRun hfits contendingRun (List.prefix_refl _)⟩

/-- The start of a WireGuard unit with routing by policy. -/
def policyStart : WgStart where
  delay := 0
  scriptFails := false
  firewallFails := false
  restartDnsmasq := false
  restartFw := true
  stop := ⟨false, 0, false, false, ⟨0, true, false, true, 0, fun _ => true,
    fun _ => true⟩⟩

/-- The child has taken the lock and asks init for the stop and the start of
the firewall.  Init waits for the lock five seconds and goes on without it. -/
def policyRun : List (Event Job) :=
  .begin 20 (.startWireguard policyStart) :: List.replicate 8 (.step 20) ++
    .answer 20 :: .step 20 ::
    .begin 1 (.startFirewall policyStart.stop.firewall) :: .step 1 ::
    (List.replicate 5 [.tick, .step 1]).flatten

theorem not_safe_policy :
    ((policyRun.foldl lockStep start).procs 20).depth = 1 ∧
      ((policyRun.foldl lockStep start).procs 20).asking = true ∧
      ((policyRun.foldl lockStep start).procs 1).depth = 1 ∧
      ¬ Safe 1 (policyRun.foldl lockStep start) := by
  have hchild : ((policyRun.foldl lockStep start).procs 20).depth = 1 := by
    decide
  have hinit : ((policyRun.foldl lockStep start).procs 1).depth = 1 := by
    decide
  refine ⟨hchild, by decide, hinit, fun hsafe => ?_⟩
  have hsame := hsafe.exclusive 20 1 (by rw [hchild]; decide)
    (by rw [hinit]; decide)
  exact absurd hsame (by decide)

end Tomato64.FirewallLock
