import Mathlib.Data.List.Basic
import Mathlib.Logic.Function.Basic
import Tomato64.Rc.Qos

/-!
# The script files of the WANs

`start_qos` and `stop_qos` find the file of a WAN's script by a name that
`prep_qosstr` puts together in a buffer of 8 bytes.  The names are longer, and
what is left of them is the same for all WANs.
-/

namespace Tomato64.Qos

open List Shared Text

/-- The variables of the process and the files. -/
structure Disk where
  globals : Globals
  files : Bytes → Option Script

/-- No script has been written. -/
def Disk.initial : Disk :=
  ⟨Globals.initial, fun _ => none⟩

/-- `start_qos`, with whether the file can be opened. -/
def startQos (nvram : Nvram) (wanPrefix : Bytes) (writable : Bool)
    (disk : Disk) : Disk :=
  if nvram.int (bytes "qos_enable") = 0 then disk
  else
    let globals := prepQosstr wanPrefix disk.globals
    if writable then
      ⟨globals, Function.update disk.files globals.qosfn
        (some (scriptFor nvram wanPrefix globals))⟩
    else { disk with globals }

/-- `stop_qos`, with the script that it runs. -/
def stopQos (wanPrefix : Bytes) (disk : Disk) : Disk × Option Script :=
  let globals := prepQosstr wanPrefix disk.globals
  ({ disk with globals }, disk.files globals.qosfn)

/-- A call of `start_qos` or `stop_qos` for a WAN. -/
structure Call where
  unit : ℕ
  valid : 1 ≤ unit ∧ unit ≤ 4
  stops : Bool
  nvram : Nvram
  writable : Bool

def Call.wanPrefix (call : Call) : Bytes :=
  getWanPrefix call.unit

/-- The effect of a call and the script whose stop action it runs. -/
def Call.exec (disk : Disk) (call : Call) : Disk × Option Script :=
  if call.stops then stopQos call.wanPrefix disk
  else (startQos call.nvram call.wanPrefix call.writable disk, none)

/-- The disk behind some calls. -/
def after (calls : List Call) : Disk :=
  calls.foldl (fun disk call => (call.exec disk).1) Disk.initial

/-! ## What is due -/

def Call.written (call : Call) : Option Script :=
  if call.stops = false ∧ call.nvram.int (bytes "qos_enable") ≠ 0 ∧
      call.writable = true then
    some (scriptFor call.nvram call.wanPrefix (Globals.ofUnit call.unit))
  else none

/-- The script that the latest of some calls for a WAN has written. -/
def latest (unit : ℕ) (calls : List Call) : Option Script :=
  calls.foldl
    (fun last call =>
      if call.unit = unit then call.written.or last else last) none

/-- The name of the file of a WAN's script. -/
def scriptName (unit : ℕ) : Bytes :=
  (prepQosstr (getWanPrefix unit) Globals.initial).qosfn

/-- A script is about the devices of a WAN, as one of the calls has found
them. -/
def Script.IsOf (script : Script) (unit : ℕ) (calls : List Call) : Prop :=
  script.qosDev = bytes "ifb" ++ decimal (unit - 1) ∧
    ∃ call ∈ calls, call.unit = unit ∧
      script.wanDev = getWanface call.nvram (getWanPrefix unit)

/-- The scripts of the WANs have names of their own, and `stop_qos` runs the
script that the latest `start_qos` for its WAN has written, which is about the
devices of this WAN. -/
structure Separate (calls : List Call) : Prop where
  names : ∀ first ∈ calls, ∀ second ∈ calls, first.unit ≠ second.unit →
    scriptName first.unit ≠ scriptName second.unit
  stops : ∀ front call back, calls = front ++ call :: back →
    call.stops = true →
      (call.exec (after front)).2 = latest call.unit front ∧
        ∀ script, (call.exec (after front)).2 = some script →
          script.IsOf call.unit front

/-! ## One file for all -/

/-- What is left of the names. -/
def sharedName : Bytes := bytes "/etc/wa"

theorem qosfn_ofUnit : ∀ unit < 5, 1 ≤ unit →
    (Globals.ofUnit unit).qosfn = sharedName ∧
      (Globals.ofUnit unit).qosdev = bytes "ifb" ++ decimal (unit - 1) := by
  decide +kernel

theorem scriptName_eq {unit : ℕ} (hunit : 1 ≤ unit ∧ unit ≤ 4) :
    scriptName unit = sharedName := by
  rw [scriptName, prepQosstr_getWanPrefix hunit]
  exact (qosfn_ofUnit unit (by omega) hunit.1).1

section
variable (disk : Disk) (call : Call)

theorem qosfn_prepQosstr (globals : Globals) :
    (prepQosstr call.wanPrefix globals).qosfn = sharedName := by
  rw [Call.wanPrefix, prepQosstr_getWanPrefix call.valid]
  exact (qosfn_ofUnit call.unit (Nat.lt_succ_of_le call.valid.2) call.valid.1).1

/-- A call leaves its script, if it writes one, in the shared file. -/
theorem files_exec : (call.exec disk).1.files sharedName =
    call.written.or (disk.files sharedName) := by
  rw [Call.exec, Call.written]
  cases hstops : call.stops with
  | true => simp [stopQos]
  | false =>
    simp only [Bool.false_eq_true, if_false, true_and, startQos]
    by_cases henable : call.nvram.int (bytes "qos_enable") = 0
    · simp [henable]
    cases hwritable : call.writable with
    | false => simp [henable]
    | true =>
      simp only [henable, if_false, if_true, ne_eq, not_false_eq_true,
        and_self, Option.some_or]
      rw [qosfn_prepQosstr, Function.update_self, Call.wanPrefix,
        prepQosstr_getWanPrefix call.valid]

end

/-- The shared file holds what the latest call for any WAN has written. -/
theorem files_after (calls : List Call) :
    (after calls).files sharedName =
      calls.foldl (fun last call => call.written.or last) none := by
  suffices hfrom : ∀ disk : Disk,
      (calls.foldl (fun disk call => (Call.exec disk call).1) disk).files
        sharedName =
        calls.foldl (fun last call => call.written.or last)
          (disk.files sharedName) from
    hfrom Disk.initial
  induction calls with
  | nil => exact fun _ => rfl
  | cons call calls ih =>
    intro disk
    rw [foldl_cons, ih, files_exec, foldl_cons]

section
variable {calls : List Call} {unit : ℕ}

/-- With calls for one WAN only, the shared file is the file of this WAN. -/
theorem latest_eq_files (hunit : ∀ call ∈ calls, call.unit = unit) :
    latest unit calls = (after calls).files sharedName := by
  rw [files_after, latest]
  exact foldl_ext _ _ _ fun last call hcall => if_pos (hunit call hcall)

/-- What the latest call for a WAN has written is about its devices. -/
theorem isOf_of_latest {script : Script}
    (hlatest : latest unit calls = some script) : script.IsOf unit calls := by
  induction calls using reverseRecOn with
  | nil => cases hlatest
  | append_singleton front call ih =>
    have hgrow (hof : script.IsOf unit front) :
        script.IsOf unit (front ++ [call]) := by
      obtain ⟨hdevice, start, hstart, hrest⟩ := hof
      exact ⟨hdevice, start, mem_append_left _ hstart, hrest⟩
    rw [latest, foldl_append, ← latest] at hlatest
    simp only [foldl_cons, foldl_nil] at hlatest
    split_ifs at hlatest with hunit
    swap
    · exact hgrow (ih hlatest)
    cases hwritten : call.written with
    | none =>
      rw [hwritten, Option.none_or] at hlatest
      exact hgrow (ih hlatest)
    | some own =>
      rw [hwritten, Option.some_or, Option.some.injEq] at hlatest
      subst hlatest
      rw [Call.written] at hwritten
      split_ifs at hwritten
      obtain rfl := Option.some.inj hwritten
      refine ⟨?_, call, ?_, hunit, ?_⟩
      · rw [← hunit]
        exact (qosfn_ofUnit call.unit (Nat.lt_succ_of_le call.valid.2)
          call.valid.1).2
      · exact mem_append_right _ (mem_singleton_self call)
      · rw [← hunit]
        rfl

end

/-! ## Several WANs -/

/-- The scripts are kept apart exactly in the runs that call for one WAN
only. -/
theorem separate_iff (calls : List Call) :
    Separate calls ↔
      ∀ first ∈ calls, ∀ second ∈ calls, first.unit = second.unit := by
  constructor
  · intro hseparate first hfirst second hsecond
    by_contra hne
    apply hseparate.names first hfirst second hsecond hne
    rw [scriptName_eq first.valid, scriptName_eq second.valid]
  intro hsame
  refine ⟨fun first hfirst second hsecond hne =>
    absurd (hsame first hfirst second hsecond) hne, ?_⟩
  rintro front call back rfl hstops
  have hfront : ∀ other ∈ front, other.unit = call.unit := fun other hother =>
    hsame other (mem_append_left _ hother) call
      (mem_append_right _ mem_cons_self)
  rw [Call.exec, if_pos hstops, stopQos, qosfn_prepQosstr,
    ← latest_eq_files hfront]
  exact ⟨rfl, fun script hlatest => isOf_of_latest hlatest⟩

/-- QoS is on and WAN `n` is the device `vlan<n>`. -/
def twoDevices (key : Bytes) : Bytes :=
  if key = bytes "qos_enable" ∨ key = bytes "qos_classify" then bytes "1"
  else if key = bytes "wan_proto" ∨ key = bytes "wan2_proto" then bytes "dhcp"
  else if key = bytes "wan_ifname" then bytes "vlan1"
  else if key = bytes "wan2_ifname" then bytes "vlan2"
  else []

/-- QoS is started for both WANs and then stopped for the first one. -/
def startBoth : List Call :=
  [⟨1, by decide, false, twoDevices, true⟩,
    ⟨2, by decide, false, twoDevices, true⟩,
    ⟨1, by decide, true, twoDevices, true⟩]

/-- The devices of the second WAN are torn down in place of those of the first
one. -/
theorem not_separate_startBoth :
    ((⟨1, by decide, true, twoDevices, true⟩ : Call).exec
        (after (startBoth.take 2))).2.map
          (fun script => (script.wanDev, script.qosDev)) =
        some (bytes "vlan2", bytes "ifb1") ∧
      ¬ Separate startBoth := by
  have hran : ((⟨1, by decide, true, twoDevices, true⟩ : Call).exec
      (after (startBoth.take 2))).2.map
        (fun script => (script.wanDev, script.qosDev)) =
      some (bytes "vlan2", bytes "ifb1") := by
    decide +kernel
  refine ⟨hran, fun hseparate => ?_⟩
  obtain ⟨script, hscript, hdevices⟩ := Option.map_eq_some_iff.mp hran
  have hof := (hseparate.stops (startBoth.take 2) _ [] rfl rfl).2 script hscript
  have hdevice : script.qosDev = bytes "ifb1" := congrArg Prod.snd hdevices
  rw [hof.1] at hdevice
  exact absurd hdevice (by decide +kernel)

end Tomato64.Qos
