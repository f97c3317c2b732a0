import Tomato64.Core.Run
import Tomato64.Quota.Shaping

/-!
# Taking the classes down again

The script knows which devices it has put a root on.  `stop_quotas` runs it, and
so does `start_quotas` when quotas are off.  When they are on, the script is
unlinked and another one written, but the old one is not run before.
-/

namespace Tomato64.QuotaRules

open List Run Text

/-- The devices with a root from a script, and the script on disk. -/
structure Shaper where
  roots : List Bytes
  script : Option Script

def Command.onRoots (roots : List Bytes) : Command → List Bytes
  | .deleteRoot dev => roots.filter (· ≠ dev)
  | .addRoot dev => dev :: roots
  | _ => roots

def stopQuotaShaping (shaper : Shaper) : Shaper :=
  { shaper with
    roots := (shaper.script.elim [] Script.stop).foldl Command.onRoots
      shaper.roots }

inductive QuotasCall where
  /-- `start_quotas`, with the speeds of the throttled rules. -/
  | start (env : Env) (scriptOpens : Bool) (file : Option Bytes)
  | stop

/-- The part of the two functions about shaping. -/
def callQuotas (shaper : Shaper) : QuotasCall → Shaper
  | .start env scriptOpens file =>
    if env.getInt "quota_enable" = 0 then stopQuotaShaping shaper
    else
      let script := startQuotaShaping env scriptOpens file
      ⟨(script.elim [] Script.start).foldl Command.onRoots shaper.roots, script⟩
  | .stop => stopQuotaShaping shaper

/-- The devices on which a script puts a root. -/
def covered (script : Option Script) : List Bytes :=
  (script.elim [] Script.start).foldl Command.onRoots []

def expected : QuotasCall → List Bytes
  | .start env scriptOpens file =>
    covered (startQuotaShaping env scriptOpens file)
  | .stop => []

/-- The roots are those of the script for the configuration; after a stop there
is none. -/
def Exact (shaper : Shaper) (call : QuotasCall) : Prop :=
  ∀ dev, dev ∈ (callQuotas shaper call).roots ↔ dev ∈ expected call

/-- The bridges and the WAN interface that the settings and the speeds ask
for. -/
def shapedDevs (env : Env) (bands : List Band) : List Bytes :=
  lanDevs env bands ++ if ulFree env && hasUl bands then wanDevs env else []

/-- What has a root when quotas are started is asked for again. -/
def Keeps (shaper : Shaper) : QuotasCall → Prop
  | .start env scriptOpens file => env.getInt "quota_enable" ≠ 0 →
    shaper.roots ⊆
      if scriptOpens then shapedDevs env (quotaReadBands file) else []
  | .stop => True

/-- The script on disk can take every root down. -/
def Known (shaper : Shaper) : Prop :=
  ∃ devs, shaper.script.elim [] Script.stop = devs.map .deleteRoot ∧
    shaper.roots ⊆ devs

/-! ## The commands of a script -/

theorem mem_foldl_deleteRoot (devs roots : List Bytes) (dev : Bytes) :
    dev ∈ (devs.map Command.deleteRoot).foldl Command.onRoots roots ↔
      dev ∈ roots ∧ dev ∉ devs := by
  induction devs generalizing roots with
  | nil => simp
  | cons head devs ih =>
    rw [map_cons, foldl_cons, ih, Command.onRoots, mem_filter,
      decide_eq_true_eq, mem_cons, not_or, and_assoc]

theorem mem_foldl_rootCommands (rate : Bytes) (devs roots : List Bytes)
    (dev : Bytes) :
    dev ∈ (devs.flatMap (rootCommands rate)).foldl Command.onRoots roots ↔
      dev ∈ roots ∨ dev ∈ devs := by
  induction devs generalizing roots with
  | nil => simp
  | cons head devs ih =>
    rw [flatMap_cons, foldl_append, ih]
    simp only [rootCommands, foldl_cons, foldl_nil, Command.onRoots, mem_cons,
      mem_filter, decide_eq_true_eq]
    by_cases hhead : dev = head <;> simp [hhead]

theorem foldl_bandCommands (idx kbit : ℤ) (devs roots : List Bytes) :
    (devs.flatMap (bandCommands idx kbit)).foldl Command.onRoots roots =
      roots := by
  induction devs with
  | nil => rfl
  | cons head devs ih =>
    rw [flatMap_cons, foldl_append]
    exact ih

theorem mem_foldl_startCommands (env : Env) (bands : List Band)
    (roots : List Bytes) (dev : Bytes) :
    dev ∈ (startCommands env bands).foldl Command.onRoots roots ↔
      dev ∈ roots ∨ dev ∈ shapedDevs env bands := by
  have hbands (others : List Band) (roots : List Bytes) :
      (others.flatMap fun band =>
        (if 0 < band.dl then
          (lanDevs env bands).flatMap (bandCommands band.idx band.dl)
        else []) ++ (if 0 < band.ul && ulFree env then
          (wanDevs env).flatMap (bandCommands band.idx band.ul)
        else [])).foldl Command.onRoots roots = roots := by
    induction others with
    | nil => rfl
    | cons band others ih =>
      rw [flatMap_cons, foldl_append, foldl_append]
      split <;> split <;> simp only [foldl_bandCommands, foldl_nil, ih]
  rw [startCommands, foldl_append, foldl_append, hbands, shapedDevs, mem_append]
  split
  · rw [mem_foldl_rootCommands, mem_foldl_rootCommands, or_assoc]
  · rw [foldl_nil, mem_foldl_rootCommands]
    simp

/-- A script, or none, puts roots on these devices and takes them down. -/
structure Shapes (script : Option Script) (devs : List Bytes) : Prop where
  stop_eq : script.elim [] Script.stop = devs.map .deleteRoot
  mem_start : ∀ roots dev,
    dev ∈ (script.elim [] Script.start).foldl Command.onRoots roots ↔
      dev ∈ roots ∨ dev ∈ devs

theorem Shapes.mem_covered {script : Option Script} {devs : List Bytes}
    (hshapes : Shapes script devs) {dev : Bytes} :
    dev ∈ covered script ↔ dev ∈ devs := by
  rw [covered, hshapes.mem_start, or_iff_right not_mem_nil]

theorem shapes_startQuotaShaping {env : Env}
    (henable : env.getInt "quota_enable" ≠ 0) (scriptOpens : Bool)
    (file : Option Bytes) : Shapes (startQuotaShaping env scriptOpens file)
      (if scriptOpens then shapedDevs env (quotaReadBands file) else []) := by
  have hnone : Shapes none [] := ⟨rfl, by simp⟩
  simp only [startQuotaShaping, if_neg henable]
  split_ifs with hbands _ hnodevs
  · rw [hbands]
    simpa [shapedDevs, lanDevs, hasDl, hasUl] using hnone
  · exact hnone
  · rw [shapedDevs, hnodevs.1, if_neg hnodevs.2]
    exact hnone
  · exact hnone
  · refine ⟨?_, mem_foldl_startCommands env _⟩
    rw [shapedDevs, map_append, apply_ite (map Command.deleteRoot)]
    rfl
  · exact hnone

theorem roots_stopQuotaShaping {shaper : Shaper} (hknown : Known shaper) :
    (stopQuotaShaping shaper).roots = [] := by
  obtain ⟨devs, hstop, hroots⟩ := hknown
  rw [eq_nil_iff_forall_not_mem, stopQuotaShaping, hstop]
  intro dev hdev
  rw [mem_foldl_deleteRoot] at hdev
  exact hdev.2 (hroots hdev.1)

theorem known_stopQuotaShaping {shaper : Shaper} (hknown : Known shaper) :
    Known (stopQuotaShaping shaper) := by
  rw [Known, roots_stopQuotaShaping hknown]
  obtain ⟨devs, hstop, -⟩ := hknown
  exact ⟨devs, hstop, nil_subset devs⟩

theorem known_callQuotas (shaper : Shaper) (call : QuotasCall)
    (hknown : Known shaper) (hkeeps : Keeps shaper call) :
    Known (callQuotas shaper call) := by
  cases call with
  | stop => exact known_stopQuotaShaping hknown
  | start env scriptOpens file =>
    rw [callQuotas]
    split
    · exact known_stopQuotaShaping hknown
    · next henable =>
      have hshapes := shapes_startQuotaShaping henable scriptOpens file
      refine ⟨_, hshapes.stop_eq, fun dev hdev => ?_⟩
      rcases (hshapes.mem_start _ dev).1 hdev with hold | hnew
      · exact hkeeps henable hold
      · exact hnew

theorem exact_iff_keeps (shaper : Shaper) (call : QuotasCall)
    (hknown : Known shaper) : Exact shaper call ↔ Keeps shaper call := by
  cases call with
  | stop =>
    simp [Exact, Keeps, callQuotas, expected, roots_stopQuotaShaping hknown]
  | start env scriptOpens file =>
    simp only [Exact, Keeps, callQuotas, expected]
    by_cases henable : env.getInt "quota_enable" = 0
    · have hscript : startQuotaShaping env scriptOpens file = none :=
        if_pos henable
      simp [henable, hscript, roots_stopQuotaShaping hknown, covered]
    have hshapes := shapes_startQuotaShaping henable scriptOpens file
    simp only [if_neg henable, hshapes.mem_start, hshapes.mem_covered]
    constructor
    · intro hexact _ dev hdev
      exact (hexact dev).1 (.inl hdev)
    · intro hkeeps dev
      exact or_iff_right_of_imp (hkeeps henable ·)

/-- Through a run the roots are those of the current script exactly if each
start asks again for the devices that have one. -/
theorem calls_exact_iff (calls : List QuotasCall) :
    Along callQuotas Exact ⟨[], none⟩ calls ↔
      Along callQuotas Keeps ⟨[], none⟩ calls :=
  along_congr known_callQuotas exact_iff_keeps ⟨[], rfl, Subset.refl _⟩

/-- Uploads over this interface are throttled to 100 kbit/s. -/
def throttledOn (iface : String) : QuotasCall :=
  .start (Env.router [(bytes "quota_enable", bytes "1"),
    (bytes "wan_iface", bytes iface)]) true (some (bytes "1 0 100"))

/-- The root of an interface stays when the WAN moves to another one. -/
theorem calls_leave_root : ¬ Along callQuotas Exact ⟨[], none⟩
    [throttledOn "eth0", throttledOn "ppp0"] := by
  rintro ⟨-, hexact, -⟩
  exact absurd (hexact (bytes "eth0")) (by decide)

end Tomato64.QuotaRules
