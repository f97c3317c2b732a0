import Tomato64.Quota.Firewall

/-!
# The usage page of the quotas

`asp_quotas` resets counters and reports them.  It knows the ids from the file
that rc writes.  They are read line by line, in pieces that fit the buffer,
into a table of 128 entries.
-/

namespace Tomato64.QuotaUsage

open List QuotaRules Stdio Text

def bandwidthMaxIdLength : ℕ := 50
def quotaMaxIds : ℕ := 128

/-- What a counter has for one address. -/
structure IpBw where
  ipv6 : Bool
  ip : BitVec 128
  bw : UInt64
  deriving DecidableEq

/-- The counters that the kernel has loaded.  An id is kept with its NUL in 50
bytes. -/
structure Counters where
  entries : Bytes → Option (List IpBw)
  short : ∀ id, bandwidthMaxIdLength ≤ id.length → entries id = none

def zeroed (data : List IpBw) : List IpBw :=
  data.map fun entry => { entry with bw := 0 }

/-- The id that a request to the kernel is for. -/
def requestId (id : Bytes) : Bytes :=
  id.take (bandwidthMaxIdLength - 1)

/-- The entries are read back, zeroed and written out again. -/
def quotaResetId (counters : Counters) (id : Bytes) : Counters where
  entries other :=
    if other = requestId id then (counters.entries other).map zeroed
    else counters.entries other
  short other hlong := by simp [counters.short other hlong]

/-- The id on a line, unless it is empty or a comment. -/
def idOf (line : Bytes) : Option Bytes :=
  let id := lineId (line.takeWhile (· ≠ 0))
  if id = [] ∨ id.head? = some 35 then none else some id

/-- The loop, with room for `max` more ids. -/
def loadIds : ℕ → List Bytes → List Bytes
  | 0, _ => []
  | _ + 1, [] => []
  | max + 1, line :: pieces =>
    match idOf line with
    | none => loadIds (max + 1) pieces
    | some id => id.take bandwidthMaxIdLength :: loadIds max pieces

/-- What the calls of `fgets` get from the file. -/
def pieces (file : Bytes) : List Bytes :=
  lines (show (1 : ℤ) < bandwidthMaxIdLength + 8 by decide) file

/-- A missing file is like an empty one. -/
def quotaLoadIds (file : Bytes) : List Bytes :=
  loadIds quotaMaxIds (pieces file)

def resetIds (args : List Bytes) (ids : List Bytes) (counters : Counters) :
    Counters :=
  match args with
  | command :: which :: _ =>
    if command = bytes "reset" then
      (ids.filter fun id => which = bytes "*" || id = which).foldl quotaResetId
        counters
    else counters
  | _ => counters

def report (ids : List Bytes) (counters : Counters) : List (Bytes × IpBw) :=
  ids.flatMap fun id =>
    ((counters.entries (requestId id)).getD []).map (id, ·)

/-- The counters after a request, and the entries that are printed. -/
def aspQuotas (args : List Bytes) (file : Bytes) (counters : Counters) :
    Counters × List (Bytes × IpBw) :=
  let ids := quotaLoadIds file
  (resetIds args ids counters, report ids (resetIds args ids counters))

/-! ## What a file lists -/

def listedIds (file : Bytes) : List Bytes :=
  (file.splitOn newline).filterMap idOf

/-- Resets and reports reach every id of the file. -/
structure Complete (file : Bytes) : Prop where
  resetAll : ∀ counters, ∀ id ∈ listedIds file,
    (aspQuotas [bytes "reset", bytes "*"] file counters).1.entries id =
      (counters.entries id).map zeroed
  resetOne : ∀ counters, ∀ id ∈ listedIds file, id ≠ bytes "*" → ∀ other,
    (aspQuotas [bytes "reset", id] file counters).1.entries other =
      if other = id then (counters.entries other).map zeroed
      else counters.entries other
  reports : ∀ args counters, ∀ id ∈ listedIds file, ∀ data,
    (aspQuotas args file counters).1.entries id = some data →
      ∀ entry ∈ data, (id, entry) ∈ (aspQuotas args file counters).2

/-- Every listed id that the kernel can hold stands among the first 128 ids of
the pieces of 57 bytes that the file is read in, and no listed id gets into the
table that has one byte too many. -/
structure InTable (file : Bytes) : Prop where
  listed : ∀ id ∈ listedIds file, id.length < bandwidthMaxIdLength →
    id ∈ ((pieces file).filterMap idOf).take quotaMaxIds
  whole : ∀ id ∈ listedIds file, id.length = bandwidthMaxIdLength →
    id ∉ quotaLoadIds file

theorem loadIds_eq (max : ℕ) (pieces : List Bytes) :
    loadIds max pieces =
      ((pieces.filterMap idOf).take max).map
        (·.take bandwidthMaxIdLength) := by
  induction pieces generalizing max with
  | nil => cases max <;> rfl
  | cons line pieces ih =>
    cases max with
    | zero => rfl
    | succ max =>
      rw [loadIds, filterMap_cons]
      cases idOf line with
      | none => exact ih (max + 1)
      | some id => rw [take_succ_cons, map_cons, ← ih max]

/-- A short id is not the beginning of a longer one. -/
theorem mem_quotaLoadIds {file id : Bytes}
    (hshort : id.length < bandwidthMaxIdLength) :
    id ∈ quotaLoadIds file ↔
      id ∈ ((pieces file).filterMap idOf).take quotaMaxIds := by
  rw [quotaLoadIds, loadIds_eq, mem_map]
  constructor
  · rintro ⟨long, hlong, rfl⟩
    rw [length_take] at hshort
    have hwhole : long.take bandwidthMaxIdLength = long :=
      take_of_length_le (by omega)
    rwa [hwhole]
  · intro hid
    exact ⟨id, hid, take_of_length_le hshort.le⟩

theorem zeroed_zeroed (data : List IpBw) :
    zeroed (zeroed data) = zeroed data := by
  simp [zeroed]

theorem length_le_of_mem_quotaLoadIds {file id : Bytes}
    (hid : id ∈ quotaLoadIds file) : id.length ≤ bandwidthMaxIdLength := by
  rw [quotaLoadIds, loadIds_eq, mem_map] at hid
  obtain ⟨long, -, rfl⟩ := hid
  exact length_take_le _ _

theorem requestId_of_short {id : Bytes}
    (hshort : id.length < bandwidthMaxIdLength) : requestId id = id :=
  take_of_length_le (Nat.le_sub_one_of_lt hshort)

theorem entries_foldl_quotaResetId (ids : List Bytes) (counters : Counters)
    (id : Bytes) :
    (ids.foldl quotaResetId counters).entries id =
      if id ∈ ids.map requestId then (counters.entries id).map zeroed
      else counters.entries id := by
  induction ids generalizing counters with
  | nil => simp
  | cons first ids ih =>
    rw [foldl_cons, ih, quotaResetId, map_cons]
    by_cases hfirst : id = requestId first
    · simp [hfirst, Function.comp_def, zeroed_zeroed]
    · simp [hfirst]

section
variable {file : Bytes} (htable : InTable file) {id : Bytes}
  (hid : id ∈ listedIds file)
include htable hid

/-- A listed id that is loaded is in the table, and requests are for it. -/
theorem InTable.mem_of_entries {counters : Counters} {data : List IpBw}
    (hdata : counters.entries id = some data) :
    id ∈ quotaLoadIds file ∧ requestId id = id := by
  have hshort : id.length < bandwidthMaxIdLength := by
    by_contra hlong
    rw [counters.short id (by omega)] at hdata
    cases hdata
  exact ⟨(mem_quotaLoadIds hshort).mpr (htable.listed id hid hshort),
    requestId_of_short hshort⟩

theorem InTable.entries_reset (counters : Counters) (chosen : Bytes → Bool)
    (hchosen : chosen id = true) :
    (((quotaLoadIds file).filter chosen).foldl quotaResetId
      counters).entries id = (counters.entries id).map zeroed := by
  rw [entries_foldl_quotaResetId]
  cases hdata : counters.entries id with
  | none => simp
  | some data =>
    obtain ⟨hmem, hrequest⟩ := htable.mem_of_entries hid hdata
    rw [if_pos (mem_map.mpr ⟨id, mem_filter.mpr ⟨hmem, hchosen⟩, hrequest⟩)]

theorem InTable.requestId_eq (hmem : id ∈ quotaLoadIds file) :
    requestId id = id := by
  refine requestId_of_short (lt_of_le_of_ne ?_ fun hlength => ?_)
  · exact length_le_of_mem_quotaLoadIds hmem
  · exact htable.whole id hid hlength hmem

end

/-- One counter, with one entry in it. -/
def single (id : Bytes) (hshort : id.length < bandwidthMaxIdLength) :
    Counters where
  entries other := if other = id then some [⟨false, 0, 1⟩] else none
  short other hlong := if_neg fun heq => by rw [heq] at hlong; omega

theorem Complete.inTable {file : Bytes} (hcomplete : Complete file) :
    InTable file := by
  constructor
  · intro id hid hshort
    have hprinted := hcomplete.reports [] (single id hshort) id hid
      [⟨false, 0, 1⟩] (if_pos rfl) _ (mem_singleton_self _)
    obtain ⟨other, hother, hmem⟩ := mem_flatMap.mp hprinted
    obtain ⟨_, -, heq⟩ := mem_map.mp hmem
    rw [(Prod.mk.inj heq).1] at hother
    exact (mem_quotaLoadIds hshort).mp hother
  · -- a reset of this id zeroes the counter of its first 49 bytes
    intro id hid hlength hmem
    have hrequest : (requestId id).length = 49 := by
      rw [requestId, length_take, hlength]
      decide
    have hshort : (requestId id).length < bandwidthMaxIdLength := by
      rw [hrequest]
      decide
    have hone := hcomplete.resetOne (single (requestId id) hshort) id hid (by
      rintro rfl
      cases hlength) (requestId id)
    rw [if_neg (fun heq => by
      rw [heq, hlength] at hrequest
      cases hrequest)] at hone
    have hzeroed := entries_foldl_quotaResetId
      ((quotaLoadIds file).filter fun other =>
        decide (id = bytes "*") || decide (other = id))
      (single (requestId id) hshort) (requestId id)
    rw [if_pos (mem_map_of_mem (mem_filter.mpr ⟨hmem, by simp⟩))] at hzeroed
    have hsame := hzeroed.symm.trans hone
    simp [single, zeroed] at hsame

/-- Resets and reports are complete exactly when the table has room for the
ids of the file, and they fit into it. -/
theorem complete_iff (file : Bytes) : Complete file ↔ InTable file := by
  refine ⟨Complete.inTable, fun htable => ⟨?_, ?_, ?_⟩⟩
  · intro counters id hid
    exact htable.entries_reset hid counters _ rfl
  · intro counters id hid hall other
    change (((quotaLoadIds file).filter fun other =>
      decide (id = bytes "*") || decide (other = id)).foldl quotaResetId
        counters).entries other = _
    by_cases hother : other = id
    · subst hother
      rw [htable.entries_reset hid counters _ (by simp), if_pos rfl]
    · rw [entries_foldl_quotaResetId, if_neg hother, if_neg]
      intro hmem
      obtain ⟨chosen, hchosen, hrequest⟩ := mem_map.mp hmem
      obtain ⟨hloaded, heq⟩ := mem_filter.mp hchosen
      simp only [hall, decide_false, Bool.false_or, decide_eq_true_eq] at heq
      subst heq
      exact hother (hrequest.symm.trans (htable.requestId_eq hid hloaded))
  · intro args counters id hid data hdata entry hentry
    obtain ⟨hmem, hrequest⟩ := htable.mem_of_entries hid hdata
    refine mem_flatMap.mpr ⟨id, hmem, ?_⟩
    change (id, entry) ∈ (((aspQuotas args file counters).1.entries
      (requestId id)).getD []).map (id, ·)
    rw [hrequest, hdata]
    exact mem_map_of_mem hentry

/-- The download caps of 129 rules. -/
def manyIds : List Bytes :=
  (range 129).map fun number =>
    bytes "quota_" ++ [digitChar (number / 100),
      digitChar (number / 10 % 10), digitChar (number % 10)] ++ bytes "_d"

def manyRules : Bytes :=
  manyIds.flatMap (· ++ [newline])

/-- The last of them is neither reset nor reported. -/
theorem not_complete_manyRules :
    bytes "quota_128_d" ∈ listedIds manyRules ∧ ¬ Complete manyRules := by
  have hlisted : bytes "quota_128_d" ∈ listedIds manyRules := by
    decide +kernel
  refine ⟨hlisted, fun hcomplete => ?_⟩
  have hmem := hcomplete.inTable.listed _ hlisted (by decide)
  have hpieces : pieces manyRules = manyIds.map (· ++ [newline]) :=
    lines_flatMap _ (by decide +kernel)
  rw [hpieces] at hmem
  revert hmem
  decide +kernel

end Tomato64.QuotaUsage
