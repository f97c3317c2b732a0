import Mathlib.Data.List.Nodup
import Tomato64.Core.Path
import Tomato64.Core.Run

/-!
# Mount points of USB partitions

`mount_partition` mounts a partition below `MOUNT_ROOT`, on a directory that is
named after the label of its volume, or after the device if that fails.  The
label comes from the stick; a filter replaces most of its characters.

A state is the list of the partitions that are mounted, in the order of
`/proc/mounts`.  The events are the calls of `mount_partition` and
`umount_partition` for one partition after the other.
-/

namespace Tomato64.UsbMount

open List Tomato64.Path Run Text

/-- The types that `find_label_or_uuid` knows. -/
inductive FsType where
  | swap
  | vfat
  | ext2
  | ext3
  | ext4
  | ntfs
  | hfs
  | hfsplus
  | exfat
  | btrfs
  | unknown
deriving DecidableEq

/-- A partition as the kernel and `find_label_or_uuid` describe it.  The device
is `/dev/` with the name of the partition, and there is no type if the device
cannot be read. -/
structure Partition where
  name : Bytes
  label : Bytes
  fstype : Option FsType
  name_ne : name ≠ []
  name_plain : ∀ char ∈ name, char ≠ slash ∧ char ≠ ascii '.' ∧ char ≠ 0
  name_length : name.length ≤ 31
  label_nulFree : NulFree label
  label_length : label.length ≤ 64

/-- What the calls of `mount_partition` meet: whether HFS is switched on, and
whether one of the attempts to mount on a directory succeeds. -/
structure Attempts where
  hfsEnabled : Bool
  onLabel : Bool
  onName : Bool
deriving DecidableEq

/-- A line of `/proc/mounts`. -/
structure Mount where
  device : Bytes
  dir : List Bytes
deriving DecidableEq

inductive MountVal where
  | fail
  | ronly
  | rw
  | exist
deriving DecidableEq

/-! ## Mounting -/

def mountRoot : Bytes :=
  bytes "/tmp/mnt"

variable (char : Byte)

/-- `isalnum` in the C locale. -/
def isAlnum : Bool :=
  isDigit char || (65 ≤ char && char ≤ 90) || (97 ≤ char && char ≤ 122)

def filterChar : Byte :=
  if isAlnum char || (bytes "+-&.@").contains char then char else ascii '_'

/-- The `snprintf` into `mountpoint[128]`. -/
def mountpoint (name : Bytes) : Bytes :=
  (mountRoot ++ slash :: name).take 127

/-- Whether `mount_r` calls `mount` for the type. -/
def isMountable (attempts : Attempts) : FsType → Bool
  | .swap => false
  | .hfs | .hfsplus => attempts.hfsEnabled
  | _ => true

def isMounted (mounts : List Mount) (device : Bytes) : Bool :=
  mounts.any fun mount => mount.device = device

def mountR (mounts : List Mount) (device path : Bytes)
    (mountable succeeds : Bool) : List Mount × MountVal :=
  if isMounted mounts device then (mounts, .exist)
  else if mountable && succeeds then
    (mounts ++ [⟨device, resolve path⟩], .rw)
  else (mounts, .fail)

/-- `mount_partition` without an `/etc/fstab`. -/
def mountPartition (mounts : List Mount) (partition : Partition)
    (attempts : Attempts) : List Mount :=
  match partition.fstype with
  | none => mounts
  | some type =>
    let mountable := isMountable attempts type
    let first :=
      if partition.label ≠ [] then
        mountR mounts partition.name
          (mountpoint (partition.label.map filterChar)) mountable
          attempts.onLabel
      else (mounts, .fail)
    if first.2 ≠ .fail then first.1
    else
      (mountR first.1 partition.name (mountpoint partition.name) mountable
        attempts.onName).1

/-- `umount`, which takes the newest mount off a directory. -/
def umount (mounts : List Mount) (dir : List Bytes) : List Mount :=
  (mounts.reverse.eraseP fun mount => mount.dir = dir).reverse

/-- `umount_partition`, with the result of the calls of `umount`. -/
def umountPartition (mounts : List Mount) (device : Bytes) (succeeds : Bool) :
    List Mount :=
  (mounts.filter fun mount => mount.device = device).foldl
    (fun mounts mount => if succeeds then umount mounts mount.dir else mounts)
    mounts

inductive Event where
  | plug (partition : Partition) (attempts : Attempts)
  | unplug (device : Bytes) (succeeds : Bool)

def step (mounts : List Mount) : Event → List Mount
  | .plug partition attempts => mountPartition mounts partition attempts
  | .unplug device succeeds => umountPartition mounts device succeeds

/-! ## Safe mount points -/

/-- Every partition is on a child of `MOUNT_ROOT`, and each on its own. -/
structure Safe (mounts : List Mount) : Prop where
  child : ∀ mount ∈ mounts, ∃ name, mount.dir = resolve mountRoot ++ [name]
  apart : (mounts.map Mount.dir).Nodup

variable {mounts : List Mount} {partition : Partition}

theorem Safe.sublist {others : List Mount} (hsafe : Safe mounts)
    (hothers : others.Sublist mounts) : Safe others :=
  ⟨fun mount hmount => hsafe.child mount (hothers.subset hmount),
    hsafe.apart.sublist (hothers.map Mount.dir)⟩

def Free (mounts : List Mount) (name : Bytes) : Prop :=
  ∀ mount ∈ mounts, mount.dir ≠ resolve mountRoot ++ [name]

/-- What a step needs.  A label that is mounted must name a child of
`MOUNT_ROOT`, and nothing may be mounted on the directory that is used. -/
def Fits (mounts : List Mount) : Event → Prop
  | .plug partition attempts =>
    isMounted mounts partition.name = false →
      (∃ type ∈ partition.fstype, isMountable attempts type = true) →
      if partition.label ≠ [] ∧ attempts.onLabel then
        partition.label ≠ bytes "." ∧ partition.label ≠ bytes ".." ∧
          Free mounts (partition.label.map filterChar)
      else attempts.onName = true → Free mounts partition.name
  | .unplug _ _ => True

/-! ## Unmounting -/

theorem umount_sublist (mounts : List Mount) (dir : List Bytes) :
    (umount mounts dir).Sublist mounts := by
  have herase :=
    eraseP_sublist (p := fun mount : Mount => decide (mount.dir = dir))
      (l := mounts.reverse)
  rw [umount, ← reverse_sublist, reverse_reverse]
  exact herase

theorem umountPartition_sublist (mounts : List Mount) (device : Bytes)
    (succeeds : Bool) :
    (umountPartition mounts device succeeds).Sublist mounts := by
  unfold umountPartition
  generalize mounts.filter _ = entries
  induction entries generalizing mounts with
  | nil => exact Sublist.refl mounts
  | cons entry entries ih =>
    rw [foldl_cons]
    refine (ih _).trans ?_
    split
    · exact umount_sublist mounts entry.dir
    · exact Sublist.refl mounts

/-! ## Where a partition is mounted -/

theorem resolve_mountRoot : resolve mountRoot = [bytes "tmp", bytes "mnt"] := by
  decide

/-- A directory that is added keeps the state safe if and only if its name is
that of a child on which nothing is mounted. -/
theorem safe_append_iff (hsafe : Safe mounts) {name : Bytes} (hne : name ≠ [])
    (hslash : slash ∉ name) (hlength : name.length ≤ 64) (device : Bytes) :
    Safe (mounts ++ [⟨device, resolve (mountpoint name)⟩]) ↔
      name ≠ bytes "." ∧ name ≠ bytes ".." ∧ Free mounts name := by
  have hroot : mountRoot.length = 8 := by decide
  rw [mountpoint, take_of_length_le (by simp [hroot]; omega),
    resolve_append hne hslash]
  constructor
  · intro hafter
    obtain ⟨child, hchild⟩ :=
      hafter.child _ (mem_append_right _ (mem_singleton_self _))
    -- The special names lead to directories that are too short for a child.
    have hlengths := congrArg List.length hchild
    have hdot : name ≠ bytes "." := by
      rintro rfl
      rw [enter_dot, length_append] at hlengths
      simp at hlengths
    have hdotDot : name ≠ bytes ".." := by
      rintro rfl
      rw [enter_dotDot, length_append, length_dropLast] at hlengths
      simp at hlengths
    refine ⟨hdot, hdotDot, fun mount hmount heq => ?_⟩
    have hapart := hafter.apart
    rw [enter_of_ne hdot hdotDot, map_append, nodup_append] at hapart
    exact hapart.2.2 mount.dir (mem_map.mpr ⟨mount, hmount, rfl⟩) _
      (mem_singleton_self _) heq
  · rintro ⟨hdot, hdotDot, hfree⟩
    rw [enter_of_ne hdot hdotDot]
    refine ⟨fun mount hmount => ?_, ?_⟩
    · rcases mem_append.mp hmount with hold | hnew
      · exact hsafe.child mount hold
      · rw [mem_singleton.mp hnew]
        exact ⟨name, rfl⟩
    · rw [map_append, nodup_append]
      refine ⟨hsafe.apart, nodup_singleton _, ?_⟩
      intro dir hdir other hother
      obtain ⟨mount, hmount, rfl⟩ := mem_map.mp hdir
      rw [mem_singleton.mp hother]
      exact hfree mount hmount

theorem filterChar_eq_dot : filterChar char = ascii '.' ↔ char = ascii '.' :=
  forall_byte (p := fun char => filterChar char = ascii '.' ↔ char = ascii '.')
    (by decide +kernel) char

theorem filterChar_ne_slash : filterChar char ≠ slash :=
  forall_byte (p := fun char => filterChar char ≠ slash) (by decide +kernel)
    char

/-- The filter makes no special name out of another label. -/
theorem map_filterChar_eq_dots (count : ℕ) (label : Bytes) :
    label.map filterChar = replicate count (ascii '.') ↔
      label = replicate count (ascii '.') := by
  rw [eq_replicate_iff, eq_replicate_iff, length_map]
  simp [filterChar_eq_dot]

/-- A partition that can be mounted goes to the label if that works, and else
to the name of the device. -/
theorem mountPartition_eq (mounts : List Mount) (partition : Partition)
    (attempts : Attempts) :
    mountPartition mounts partition attempts =
      if isMounted mounts partition.name = false ∧
          partition.fstype.any (isMountable attempts) = true then
        if partition.label ≠ [] ∧ attempts.onLabel then
          mounts ++ [⟨partition.name,
            resolve (mountpoint (partition.label.map filterChar))⟩]
        else if attempts.onName then
          mounts ++ [⟨partition.name, resolve (mountpoint partition.name)⟩]
        else mounts
      else mounts := by
  unfold mountPartition
  cases partition.fstype with
  | none => simp
  | some type =>
    by_cases hlabel : partition.label = [] <;>
      cases hmounted : isMounted mounts partition.name <;>
      cases hyes : isMountable attempts type <;>
      cases attempts.onLabel <;> cases attempts.onName <;>
      simp [mountR, hmounted, hyes, hlabel]

/-! ## Every sequence of events -/

theorem Partition.slash_not_mem (partition : Partition) :
    slash ∉ partition.name :=
  fun hmem => (partition.name_plain slash hmem).1 rfl

theorem Partition.name_ne_dots (partition : Partition) (count : ℕ)
    (hcount : count ≠ 0) :
    partition.name ≠ replicate count (ascii '.') := by
  intro heq
  have hdot : ascii '.' ∈ partition.name := by
    rw [heq, mem_replicate]
    exact ⟨hcount, rfl⟩
  exact (partition.name_plain _ hdot).2.1 rfl

/-- The directory of a label. -/
theorem safe_label_iff (hsafe : Safe mounts) (hlabel : partition.label ≠ []) :
    Safe (mounts ++ [⟨partition.name,
        resolve (mountpoint (partition.label.map filterChar))⟩]) ↔
      partition.label ≠ bytes "." ∧ partition.label ≠ bytes ".." ∧
        Free mounts (partition.label.map filterChar) := by
  have hdot : bytes "." = replicate 1 (ascii '.') := by decide
  have hdotDot : bytes ".." = replicate 2 (ascii '.') := by decide
  have hslash : slash ∉ partition.label.map filterChar := by
    intro hmem
    obtain ⟨char, -, hchar⟩ := mem_map.mp hmem
    exact filterChar_ne_slash char hchar
  rw [safe_append_iff hsafe (by simpa using hlabel) hslash
    (by simpa using partition.label_length), hdot, hdotDot, ne_eq, ne_eq,
    map_filterChar_eq_dots, map_filterChar_eq_dots]

/-- The directory of a device. -/
theorem safe_name_iff (hsafe : Safe mounts) (partition : Partition) :
    Safe (mounts ++ [⟨partition.name, resolve (mountpoint partition.name)⟩]) ↔
      Free mounts partition.name := by
  have hlength := partition.name_length
  have hdot : partition.name ≠ bytes "." := partition.name_ne_dots 1 (by decide)
  have hdotDot : partition.name ≠ bytes ".." :=
    partition.name_ne_dots 2 (by decide)
  rw [safe_append_iff hsafe partition.name_ne partition.slash_not_mem
    (by omega)]
  exact ⟨fun hfits => hfits.2.2, fun hfree => ⟨hdot, hdotDot, hfree⟩⟩

/-- A step from a safe state leads to a safe one if and only if it fits. -/
theorem safe_step_iff (mounts : List Mount) (event : Event)
    (hsafe : Safe mounts) : Safe (step mounts event) ↔ Fits mounts event := by
  cases event with
  | unplug device succeeds =>
    exact ⟨fun _ => trivial,
      fun _ => hsafe.sublist (umountPartition_sublist _ _ _)⟩
  | plug partition attempts =>
    simp only [step, Fits, Option.mem_def, ← Option.any_eq_true, ← and_imp,
      mountPartition_eq]
    split
    · next hmounts =>
      rw [imp_iff_right hmounts]
      split
      · next hlabel => exact safe_label_iff hsafe hlabel.1
      · split
        · next hname => simp [safe_name_iff hsafe partition, hname]
        · next hname => simp [hsafe, hname]
    · next hmounts => exact ⟨fun _ hyes => absurd hyes hmounts, fun _ => hsafe⟩

theorem safe_nil : Safe [] :=
  ⟨fun _ hmount => (not_mem_nil hmount).elim, nodup_nil⟩

/-- Every state of a run is safe if and only if every step of it fits. -/
theorem safe_iff_fits (events : List Event) :
    (∀ front, front <+: events → Safe (front.foldl step [])) ↔
      Along step Fits [] events :=
  (along_iff_invariant safe_step_iff safe_nil).symm

/-- A stick whose label is `..`. -/
def upwards : Partition where
  name := bytes "sda1"
  label := bytes ".."
  fstype := some .vfat
  name_ne := by decide
  name_plain := by decide
  name_length := by decide
  label_nulFree := by decide
  label_length := by decide

/-- It is mounted on `/tmp`. -/
theorem not_safe_upwards :
    ¬ ∀ front, front <+: [Event.plug upwards ⟨true, true, true⟩] →
      Safe (front.foldl step []) := by
  intro hsafe
  have hafter := hsafe _ (prefix_refl _)
  have hmounts : [Event.plug upwards ⟨true, true, true⟩].foldl step [] =
      [⟨bytes "sda1", [bytes "tmp"]⟩] := by decide
  rw [hmounts] at hafter
  obtain ⟨name, hname⟩ := hafter.child _ (mem_singleton_self _)
  have hlengths := congrArg List.length hname
  rw [resolve_mountRoot] at hlengths
  simp at hlengths

end Tomato64.UsbMount
