import Mathlib.Algebra.GroupWithZero.Nat
import Mathlib.Data.List.Rotate
import Tomato64.Core.Ledger

/-!
# The history of the bandwidth daemons

`rstats` and `cstats` keep their daily and monthly totals in rings: arrays with
the position of the latest entry.  `bump`, which is the same function in both,
adds to the entry of a date, and puts a new date behind the latest one over the
oldest.  `save_datajs` lists a ring from its oldest entry on.

The positions come out of a file, so they are integers here, and an access
outside the array has no result.
-/

namespace Tomato64.Stats

open Ledger List

/-- The bytes in each direction.  They wrap around at `2 ^ 64`. -/
structure Counters where
  rx : UInt64
  tx : UInt64
deriving DecidableEq

instance : Add Counters :=
  ⟨fun left right => ⟨left.rx + right.rx, left.tx + right.tx⟩⟩

/-- `data_t` -/
structure Data where
  xtime : UInt32
  counter : Counters
deriving DecidableEq

/-- An array of `max` entries with the position of the latest one. -/
structure Ring (max : ℕ) where
  data : List Data
  length_data : data.length = max
  tail : ℤ

variable {max : ℕ}

/-- `data[index]`, when it is there. -/
def slot? (data : List Data) (index : ℤ) : Option Data :=
  if 0 ≤ index then data[index.toNat]? else none

/-- The last entry with a date, as the loop from `max - 1` down finds it. -/
def lastIndex (data : List Data) (xnow : UInt32) : Option ℕ :=
  (range data.length).reverse.find? fun index =>
    (data[index]?).any (·.xtime = xnow)

variable (ring : Ring max)

/-- A ring with one entry replaced. -/
def Ring.store (index : ℤ) (data : Data) : Ring max :=
  ⟨ring.data.set index.toNat data, by
    rw [length_set, ring.length_data], ring.tail⟩

/-- `data[index].counter[i] += counter[i]` -/
def addAt (index : ℤ) (counter : Counters) : Option (Ring max) :=
  (slot? ring.data index).map fun slot =>
    ring.store index ⟨slot.xtime, slot.counter + counter⟩

/-- The entry behind the latest one, with a new date and no bytes. -/
def openSlot (xnow : UInt32) : Option (Ring max) :=
  let tail := (ring.tail + 1).tmod max
  (slot? ring.data tail).map fun _ =>
    { ring.store tail ⟨xnow, ⟨0, 0⟩⟩ with tail := tail }

def bump (xnow : UInt32) (counter : Counters) : Option (Ring max) :=
  (slot? ring.data ring.tail).bind fun slot =>
    if slot.xtime = xnow then addAt ring ring.tail counter
    else
      match lastIndex ring.data xnow with
      | some index => addAt ring index counter
      | none => (openSlot ring xnow).bind fun opened =>
        addAt opened opened.tail counter

/-- The memory that `clear_history` leaves. -/
def Ring.empty (max : ℕ) : Ring max :=
  ⟨replicate max ⟨0, ⟨0, 0⟩⟩, length_replicate, 0⟩

/-- The loop of `save_datajs`, which starts behind `position`. -/
def listFrom (ring : Ring max) : ℕ → ℤ → Option (List Data)
  | 0, _ => some []
  | count + 1, position => do
      let next := (position + 1).tmod max
      let slot ← slot? ring.data next
      let others ← listFrom ring count next
      return if slot.xtime = 0 then others else slot :: others

/-- The entries that `save_datajs` writes, in this order. -/
def saveDatajs : Option (List Data) :=
  listFrom ring max ring.tail

/-! ## The order of the entries -/

/-- The array from the entry behind the latest one on. -/
def Ring.ordered : List Data :=
  ring.data.rotate (ring.tail + 1).toNat

def pair (data : Data) : UInt32 × Counters :=
  (data.xtime, data.counter)

/-- The entries in use. -/
def Ring.live : List Data :=
  ring.ordered.filter (·.xtime ≠ 0)

def Ring.entries : List (UInt32 × Counters) :=
  ring.live.map pair

/-- The position lies in the array, the entries that are not in use come first
in the order, and the dates of the others differ. -/
structure Sound (ring : Ring max) : Prop where
  tail_nonneg : 0 ≤ ring.tail
  tail_lt : ring.tail < max
  unused_first : ∃ unused, ring.ordered = unused ++ ring.live ∧
    ∀ slot ∈ unused, slot.xtime = 0
  nodup : (keys ring.entries).Nodup

theorem length_ordered : ring.ordered.length = max := by
  rw [Ring.ordered, length_rotate, ring.length_data]

variable {slot : Data}

theorem mem_ordered : slot ∈ ring.ordered ↔ slot ∈ ring.data :=
  mem_rotate

theorem ordered_empty (max : ℕ) :
    (Ring.empty max).ordered = replicate max ⟨0, ⟨0, 0⟩⟩ := by
  rw [Ring.ordered, Ring.empty, rotate_replicate]

theorem live_empty (max : ℕ) : (Ring.empty max).live = [] := by
  rw [Ring.live, ordered_empty, filter_eq_nil_iff]
  intro slot hslot
  rw [(mem_replicate.mp hslot).2]
  decide

theorem entries_empty (max : ℕ) : (Ring.empty max).entries = [] := by
  rw [Ring.entries, live_empty, map_nil]

theorem empty_sound {max : ℕ} (hmax : 0 < max) : Sound (Ring.empty max) where
  tail_nonneg := Int.le_refl 0
  tail_lt := Int.natCast_pos.mpr hmax
  unused_first := by
    refine ⟨(Ring.empty max).ordered, by rw [live_empty, append_nil], ?_⟩
    intro slot hslot
    rw [ordered_empty] at hslot
    rw [(mem_replicate.mp hslot).2]
  nodup := by
    rw [entries_empty]
    exact nodup_nil

/-! ## Adding to an entry -/

variable {index : ℕ}

/-- Replacing the only entry with a property is changing all that have it. -/
theorem set_eq_map {α : Type} {p : α → Bool} (f : α → α) {values : List α}
    {value : α} (hvalue : values[index]? = some value)
    (hp : p value = true) (hcount : values.countP p ≤ 1) :
    values.set index (f value) =
      values.map fun other => if p other then f other else other := by
  induction values generalizing index with
  | nil => rfl
  | cons head values ih =>
    cases index with
    | zero =>
      obtain rfl : head = value := by simpa using hvalue
      rw [countP_cons, if_pos hp] at hcount
      have hnone : values.countP p = 0 := by omega
      rw [countP_eq_zero] at hnone
      rw [set_cons_zero, map_cons, if_pos hp]
      congr 1
      calc
        values = values.map id := (map_id values).symm
        _ = _ := map_congr_left fun other hother =>
          (if_neg (hnone other hother)).symm
    | succ index =>
      rw [getElem?_cons_succ] at hvalue
      have hpos : 0 < values.countP p :=
        countP_pos_iff.mpr ⟨value, mem_of_getElem? hvalue, hp⟩
      rw [countP_cons] at hcount
      have hhead : ¬ p head = true := by
        intro hhead
        rw [if_pos hhead] at hcount
        omega
      rw [if_neg hhead] at hcount
      rw [set_cons_succ, map_cons, if_neg hhead, ih hvalue (by omega)]

section
variable {ring : Ring max} {xnow : UInt32} {counter : Counters}

/-- The change that `bump` makes to the entry of its date. -/
def raise (xnow : UInt32) (counter : Counters) (slot : Data) : Data :=
  if slot.xtime = xnow then ⟨slot.xtime, slot.counter + counter⟩ else slot

theorem xtime_raise (slot : Data) : (raise xnow counter slot).xtime = slot.xtime := by
  unfold raise
  split <;> rfl

theorem countP_xtime_le (hsound : Sound ring) (hdate : xnow ≠ 0) :
    ring.data.countP (·.xtime = xnow) ≤ 1 := by
  have hperm : ring.ordered.Perm ring.data := rotate_perm _ _
  rw [← hperm.countP_eq]
  have hlive : ring.ordered.countP (·.xtime = xnow) =
      ring.live.countP (·.xtime = xnow) := by
    rw [Ring.live, countP_filter]
    refine countP_congr fun slot _ => ?_
    simp only [decide_eq_true_eq, Bool.and_eq_true]
    exact ⟨fun heq => ⟨heq, heq ▸ hdate⟩, And.left⟩
  have hcount : ring.live.countP (·.xtime = xnow) =
      (keys ring.entries).count xnow := by
    rw [Ring.entries, Ledger.keys, map_map, List.count, countP_map]
    refine countP_congr fun slot _ => ?_
    simp [pair]
  rw [hlive, hcount]
  exact nodup_iff_count_le_one.mp hsound.nodup xnow

/-- Adding to the entry of a date is the change of all entries. -/
theorem addAt_eq (counter : Counters) (hsound : Sound ring) (hdate : xnow ≠ 0) {index : ℤ}
    (hslot : slot? ring.data index = some slot) (hxtime : slot.xtime = xnow) :
    ∃ next, addAt ring index counter = some next ∧
      next.data = ring.data.map (raise xnow counter) ∧
      next.tail = ring.tail := by
  have hadd : addAt ring index counter =
      some (ring.store index ⟨slot.xtime, slot.counter + counter⟩) := by
    rw [addAt, hslot, Option.map_some]
  refine ⟨_, hadd, ?_, rfl⟩
  rw [slot?, Option.ite_none_right_eq_some] at hslot
  have hset := set_eq_map
    (fun slot : Data => ⟨slot.xtime, slot.counter + counter⟩)
    hslot.2 (decide_eq_true hxtime) (countP_xtime_le hsound hdate)
  refine hset.trans ?_
  refine map_congr_left fun other _ => ?_
  simp only [raise, decide_eq_true_eq]

/-- A change of the counters of one date keeps the order of the entries. -/
theorem entries_raise {next : Ring max}
    (hdata : next.data = ring.data.map (raise xnow counter))
    (htail : next.tail = ring.tail) :
    next.ordered = ring.ordered.map (raise xnow counter) ∧
      next.live = ring.live.map (raise xnow counter) ∧
      next.entries = credit (xnow, counter) ring.entries := by
  have hordered : next.ordered = ring.ordered.map (raise xnow counter) := by
    rw [Ring.ordered, hdata, htail, Ring.ordered, map_rotate]
  have hlive : next.live = ring.live.map (raise xnow counter) := by
    rw [Ring.live, hordered, filter_map, Ring.live]
    congr 1
    refine filter_congr fun slot _ => ?_
    simp only [Function.comp_apply, xtime_raise]
  refine ⟨hordered, hlive, ?_⟩
  rw [Ring.entries, hlive, Ring.entries, credit, map_map, map_map]
  refine map_congr_left fun slot _ => ?_
  by_cases hdate : slot.xtime = xnow
  · simp [pair, raise, hdate]
  · simp [pair, raise, hdate]

theorem sound_of_raise {next : Ring max} (hsound : Sound ring)
    (hdata : next.data = ring.data.map (raise xnow counter))
    (htail : next.tail = ring.tail) : Sound next := by
  obtain ⟨hordered, hlive, hentries⟩ := entries_raise hdata htail
  obtain ⟨unused, hunused, hzero⟩ := hsound.unused_first
  refine ⟨htail ▸ hsound.tail_nonneg, htail ▸ hsound.tail_lt,
    ⟨unused.map (raise xnow counter), ?_, ?_⟩, ?_⟩
  · rw [hordered, hunused, map_append, hlive]
  · intro slot hslot
    obtain ⟨old, hold, rfl⟩ := mem_map.mp hslot
    rw [xtime_raise, hzero old hold]
  · rw [hentries, keys_credit]
    exact hsound.nodup

theorem mem_keys_entries (hdate : xnow ≠ 0) :
    xnow ∈ keys ring.entries ↔ ∃ slot ∈ ring.data, slot.xtime = xnow := by
  simp only [Ledger.keys, Ring.entries, Ring.live, map_map, mem_map, mem_filter,
    mem_ordered, Function.comp_apply, pair, decide_eq_true_eq]
  constructor
  · rintro ⟨slot, ⟨hslot, -⟩, rfl⟩
    exact ⟨slot, hslot, rfl⟩
  · rintro ⟨slot, hslot, rfl⟩
    exact ⟨slot, ⟨hslot, hdate⟩, rfl⟩

/-! ## Opening an entry -/

/-- Writing over the first entry and counting the order from behind it puts
the new entry last. -/
theorem rotate_set {α : Type} {values : List α}
    (hindex : index < values.length) (value : α) :
    (values.set index value).rotate (index + 1) =
      (values.rotate index).tail ++ [value] := by
  rw [rotate_eq_drop_append_take (by rw [length_set]; omega),
    rotate_eq_drop_append_take (by omega),
    drop_set_of_lt (by omega), take_succ_eq_append_getElem
      (by rw [length_set]; exact hindex),
    getElem_set_self, take_set_of_le (by omega)]
  have hdrop : values.drop index =
      values.get ⟨index, hindex⟩ :: values.drop (index + 1) :=
    drop_eq_getElem_cons hindex
  rw [hdrop, cons_append, tail_cons, append_assoc]

def nextIndex (max : ℕ) (position : ℤ) : ℕ :=
  (position + 1).toNat % max

theorem tmod_eq_nextIndex {position : ℤ} (hnonneg : 0 ≤ position) (max : ℕ) :
    (position + 1).tmod max = (nextIndex max position : ℤ) := by
  rw [Int.tmod_eq_emod_of_nonneg (by omega)]
  have hcast : position + 1 = ((position + 1).toNat : ℤ) := by omega
  rw [hcast]
  rfl

theorem nextIndex_lt (ring : Ring max) (hmax : 0 < max) (position : ℤ) :
    nextIndex max position < ring.data.length := by
  rw [ring.length_data]
  exact Nat.mod_lt _ hmax

theorem rotate_nextIndex (ring : Ring max) (position : ℤ) :
    ring.data.rotate (nextIndex max position) =
      ring.data.rotate (position + 1).toNat := by
  have hmod := rotate_mod ring.data (position + 1).toNat
  rw [ring.length_data] at hmod
  exact hmod

theorem slot?_natCast {data : List Data} (hindex : index < data.length) :
    slot? data (index : ℤ) = some (data.get ⟨index, hindex⟩) := by
  rw [slot?, if_pos (Int.natCast_nonneg _), Int.toNat_natCast]
  exact getElem?_eq_getElem hindex

/-- The latest entry lies in the array. -/
def Ring.InRange (ring : Ring max) : Prop :=
  0 ≤ ring.tail ∧ ring.tail < max

theorem Sound.inRange (hsound : Sound ring) : ring.InRange :=
  ⟨hsound.tail_nonneg, hsound.tail_lt⟩

theorem Ring.InRange.max_pos (hrange : ring.InRange) : 0 < max := by
  obtain ⟨hnonneg, hlt⟩ := hrange
  omega

theorem Ring.InRange.exists_slot (hrange : ring.InRange) :
    ∃ slot, slot? ring.data ring.tail = some slot := by
  have hindex : ring.tail.toNat < ring.data.length := by
    rw [ring.length_data]
    exact (Int.toNat_lt hrange.1).mpr hrange.2
  exact ⟨_, by rw [slot?, if_pos hrange.1, getElem?_eq_getElem hindex]⟩

/-- The opened entry with its first bytes is the last one in the order, and
what was the first one is gone. -/
theorem open_eq (xnow : UInt32) (counter : Counters) (hrange : ring.InRange) :
    ∃ next, ((openSlot ring xnow).bind fun opened =>
        addAt opened opened.tail counter) = some next ∧
      next.InRange ∧
      next.ordered = ring.ordered.tail ++ [⟨xnow, ⟨0, 0⟩ + counter⟩] := by
  set index := nextIndex max ring.tail with hdef
  have hindex : index < ring.data.length :=
    nextIndex_lt ring hrange.max_pos ring.tail
  have hopen : openSlot ring xnow =
      some { ring.store index ⟨xnow, ⟨0, 0⟩⟩ with tail := index } := by
    unfold openSlot
    dsimp only
    rw [tmod_eq_nextIndex hrange.1, ← hdef, slot?_natCast hindex,
      Option.map_some]
  have hopened : slot? (ring.data.set index ⟨xnow, ⟨0, 0⟩⟩) (index : ℤ) =
      some ⟨xnow, ⟨0, 0⟩⟩ := by
    rw [slot?_natCast (by rw [length_set]; exact hindex)]
    exact congrArg some (getElem_set_self _)
  let next : Ring max :=
    { ring.store index ⟨xnow, ⟨0, 0⟩ + counter⟩ with tail := index }
  refine ⟨next, ?_, ⟨Int.natCast_nonneg _, ?_⟩, ?_⟩
  · rw [hopen, Option.bind_some, addAt]
    simp only [Ring.store, Int.toNat_natCast, hopened, Option.map_some,
      set_set, next]
  · rw [ring.length_data] at hindex
    exact Int.ofNat_lt.mpr hindex
  · have hrotate := rotate_set hindex (⟨xnow, ⟨0, 0⟩ + counter⟩ : Data)
    rw [hdef, rotate_nextIndex] at hrotate
    exact hrotate

theorem entries_open {next : Ring max} (hsound : Sound ring)
    (hdate : xnow ≠ 0) (hfresh : xnow ∉ keys ring.entries)
    (hrange : next.InRange) (hordered : next.ordered =
      ring.ordered.tail ++ [⟨xnow, ⟨0, 0⟩ + counter⟩]) :
    Sound next ∧
      next.entries = push max ring.entries (xnow, ⟨0, 0⟩ + counter) := by
  obtain ⟨unused, hunused, hzero⟩ := hsound.unused_first
  have hlength := length_ordered ring
  rw [hunused, length_append] at hlength
  have hlive : ∀ slot ∈ ring.live, slot.xtime ≠ 0 := fun slot hslot =>
    of_decide_eq_true (mem_filter.mp hslot).2
  -- The first entry is an unused one, or the ring is full.
  have hsplit : ∃ rest kept, ring.ordered.tail = rest ++ kept ∧
      (∀ slot ∈ rest, slot.xtime = 0) ∧ (∀ slot ∈ kept, slot.xtime ≠ 0) ∧
      kept ++ [⟨xnow, ⟨0, 0⟩ + counter⟩] =
        (if ring.live.length < max then ring.live else ring.live.tail) ++
          [⟨xnow, ⟨0, 0⟩ + counter⟩] := by
    cases unused with
    | nil =>
      refine ⟨[], ring.live.tail, by rw [hunused]; rfl, by simp,
        fun slot hslot => hlive slot (mem_of_mem_tail hslot), ?_⟩
      rw [if_neg (by simp only [length_nil] at hlength; omega)]
    | cons first unused =>
      refine ⟨unused, ring.live, by rw [hunused]; rfl,
        fun slot hslot => hzero slot (mem_cons_of_mem _ hslot), hlive, ?_⟩
      rw [if_pos (by simp only [length_cons] at hlength; omega)]
  obtain ⟨rest, kept, htail, hrest, hkept, hpush⟩ := hsplit
  have hnext : next.live = kept ++ [⟨xnow, ⟨0, 0⟩ + counter⟩] := by
    rw [Ring.live, hordered, htail, filter_append, filter_append,
      filter_eq_nil_iff.mpr, filter_eq_self.mpr, nil_append]
    · simp [hdate]
    · exact fun slot hslot => decide_eq_true (hkept slot hslot)
    · exact fun slot hslot => by simp [hrest slot hslot]
  have hentries : next.entries =
      push max ring.entries (xnow, ⟨0, 0⟩ + counter) := by
    rw [Ring.entries, hnext, hpush, push, Ring.entries, length_map, map_append]
    split <;> simp [pair, map_tail]
  refine ⟨⟨hrange.1, hrange.2, ⟨rest, ?_, hrest⟩, ?_⟩, hentries⟩
  · rw [hordered, htail, hnext, append_assoc]
  · have hpost : post max ring.entries (xnow, ⟨0, 0⟩ + counter) =
        push max ring.entries (xnow, ⟨0, 0⟩ + counter) := if_neg hfresh
    rw [hentries, ← hpost]
    exact nodup_keys_post hsound.nodup

/-! ## One call -/

theorem lastIndex_eq_some {data : List Data}
    (hlast : lastIndex data xnow = some index) :
    ∃ slot, slot? data index = some slot ∧ slot.xtime = xnow := by
  have hfound := find?_some hlast
  simp only [Option.any_eq_true, decide_eq_true_eq] at hfound
  obtain ⟨slot, hslot, hxtime⟩ := hfound
  refine ⟨slot, ?_, hxtime⟩
  rw [slot?, if_pos (Int.natCast_nonneg _), Int.toNat_natCast, hslot]

theorem lastIndex_eq_none {data : List Data}
    (hlast : lastIndex data xnow = none) :
    ∀ slot ∈ data, slot.xtime ≠ xnow := by
  intro slot hslot hxtime
  obtain ⟨index, hindex, rfl⟩ := mem_iff_getElem.mp hslot
  have hnone := find?_eq_none.mp hlast index (by simpa using hindex)
  simp [getElem?_eq_getElem hindex, hxtime] at hnone

/-- Zero bytes and some bytes are these bytes. -/
theorem zero_add_counters (counter : Counters) : ⟨0, 0⟩ + counter = counter := by
  change (⟨0 + counter.rx, 0 + counter.tx⟩ : Counters) = counter
  rw [UInt64.zero_add, UInt64.zero_add]

theorem bump_post (counter : Counters) (hsound : Sound ring) (hdate : xnow ≠ 0) :
    ∃ next, bump ring xnow counter = some next ∧ Sound next ∧
      next.entries = post max ring.entries (xnow, counter) := by
  -- An entry of the date, wherever it was found, is credited.
  have hadd : ∀ index slot, slot? ring.data index = some slot →
      slot.xtime = xnow → ∃ next, addAt ring index counter = some next ∧
        Sound next ∧ next.entries = post max ring.entries (xnow, counter) := by
    intro index slot hslot hxtime
    obtain ⟨next, hnext, hdata, htail⟩ :=
      addAt_eq counter hsound hdate hslot hxtime
    have hmem : xnow ∈ keys ring.entries := by
      rw [slot?, Option.ite_none_right_eq_some] at hslot
      exact (mem_keys_entries hdate).mpr
        ⟨slot, mem_of_getElem? hslot.2, hxtime⟩
    refine ⟨next, hnext, sound_of_raise hsound hdata htail, ?_⟩
    rw [(entries_raise hdata htail).2.2, post, if_pos hmem]
  obtain ⟨latest, hlatest⟩ := hsound.inRange.exists_slot
  rw [bump, hlatest, Option.bind_some]
  by_cases hxtime : latest.xtime = xnow
  · rw [if_pos hxtime]
    exact hadd ring.tail latest hlatest hxtime
  rw [if_neg hxtime]
  cases hlast : lastIndex ring.data xnow with
  | some index =>
    obtain ⟨slot, hslot, hfound⟩ := lastIndex_eq_some hlast
    exact hadd index slot hslot hfound
  | none =>
    have hfresh : xnow ∉ keys ring.entries := by
      rw [mem_keys_entries hdate]
      rintro ⟨slot, hslot, hfound⟩
      exact lastIndex_eq_none hlast slot hslot hfound
    obtain ⟨next, hnext, hrange, hordered⟩ :=
      open_eq xnow counter hsound.inRange
    obtain ⟨hsoundNext, hentries⟩ :=
      entries_open hsound hdate hfresh hrange hordered
    refine ⟨next, hnext, hsoundNext, ?_⟩
    rw [hentries, zero_add_counters, post, if_neg hfresh]

/-! ## Positions in range -/

theorem empty_inRange {max : ℕ} (hmax : 0 < max) : (Ring.empty max).InRange :=
  ⟨Int.le_refl 0, Int.natCast_pos.mpr hmax⟩

theorem addAt_inRange {ring : Ring max} (counter : Counters)
    (hrange : ring.InRange) {index : ℤ}
    (hslot : slot? ring.data index = some slot) :
    ∃ next, addAt ring index counter = some next ∧ next.InRange := by
  refine ⟨ring.store index ⟨slot.xtime, slot.counter + counter⟩, ?_, hrange⟩
  rw [addAt, hslot, Option.map_some]

/-- From a position in range `bump` has a result, and keeps it so, whatever
the entries are. -/
theorem bump_inRange {ring : Ring max} (xnow : UInt32) (counter : Counters)
    (hrange : ring.InRange) :
    ∃ next, bump ring xnow counter = some next ∧ next.InRange := by
  obtain ⟨latest, hlatest⟩ := hrange.exists_slot
  rw [bump, hlatest, Option.bind_some]
  by_cases hxtime : latest.xtime = xnow
  · rw [if_pos hxtime]
    exact addAt_inRange counter hrange hlatest
  rw [if_neg hxtime]
  cases hlast : lastIndex ring.data xnow with
  | some index =>
    obtain ⟨slot, hslot, -⟩ := lastIndex_eq_some hlast
    exact addAt_inRange counter hrange hslot
  | none =>
    obtain ⟨next, hnext, hrangeNext, -⟩ := open_eq xnow counter hrange
    exact ⟨next, hnext, hrangeNext⟩

/-! ## The listing -/

/-- The order from one index on, and from the next one on. -/
theorem take_rotate {α : Type} {values : List α} {count : ℕ}
    (hindex : index < values.length) (hcount : count < values.length) :
    (values.rotate index).take (count + 1) =
      values.get ⟨index, hindex⟩ :: (values.rotate (index + 1)).take count := by
  have hdrop : values.drop index =
      values.get ⟨index, hindex⟩ :: values.drop (index + 1) :=
    drop_eq_getElem_cons hindex
  have htake : values.take (index + 1) =
      values.take index ++ [values.get ⟨index, hindex⟩] :=
    take_succ_eq_append_getElem hindex
  have hshort : count ≤
      (values.drop (index + 1) ++ values.take index).length := by
    rw [length_append, length_drop, length_take]
    omega
  rw [rotate_eq_drop_append_take (by omega),
    rotate_eq_drop_append_take (by omega), hdrop, htake, cons_append,
    take_succ_cons, ← append_assoc, take_append_of_le_length hshort]

/-- The loop lists what comes next in the order. -/
theorem listFrom_eq (ring : Ring max) (hmax : 0 < max) {position : ℤ}
    (hnonneg : 0 ≤ position) {count : ℕ} (hcount : count ≤ max) :
    listFrom ring count position =
      some (((ring.data.rotate (position + 1).toNat).take count).filter
        (·.xtime ≠ 0)) := by
  induction count generalizing position with
  | zero => rfl
  | succ count ih =>
    have hindex := nextIndex_lt ring hmax position
    have hrest := ih (Int.natCast_nonneg (nextIndex max position)) (by omega)
    have hcast : ((nextIndex max position : ℤ) + 1).toNat =
        nextIndex max position + 1 := by omega
    rw [hcast] at hrest
    rw [← rotate_nextIndex, take_rotate hindex (by rw [ring.length_data]; omega),
      filter_cons]
    simp only [listFrom, tmod_eq_nextIndex hnonneg, slot?_natCast hindex, hrest,
      Option.bind_eq_bind, Option.bind_some, Option.pure_def]
    simp

theorem saveDatajs_inRange {ring : Ring max} (hrange : ring.InRange) :
    ∃ entries, saveDatajs ring = some entries := by
  exact ⟨_, listFrom_eq ring hrange.max_pos hrange.1 (le_refl max)⟩

theorem saveDatajs_eq (hsound : Sound ring) :
    saveDatajs ring = some ring.live := by
  rw [saveDatajs, listFrom_eq ring hsound.inRange.max_pos hsound.tail_nonneg
    (le_refl max), take_of_length_le]
  · rfl
  · rw [length_rotate, ring.length_data]

end

/-! ## Sequences of calls -/

/-- Calls of `bump` with their dates and amounts. -/
def bumps (calls : List (UInt32 × Counters)) : Option (Ring max) :=
  calls.foldlM (fun ring call => bump ring call.1 call.2) ring

theorem bumps_ledger (hmax : 0 < max) {calls : List (UInt32 × Counters)}
    (hdates : ∀ call ∈ calls, call.1 ≠ 0) :
    ∃ ring, bumps (Ring.empty max) calls = some ring ∧ Sound ring ∧
      ring.entries = ledger max calls := by
  induction calls using reverseRecOn with
  | nil => exact ⟨_, rfl, empty_sound hmax, entries_empty max⟩
  | append_singleton calls call ih =>
    rw [forall_mem_append] at hdates
    obtain ⟨ring, hring, hsound, hentries⟩ := ih hdates.1
    have hdate : call.1 ≠ 0 := hdates.2 call (mem_singleton_self call)
    obtain ⟨next, hnext, hsoundNext, hpost⟩ := bump_post call.2 hsound hdate
    refine ⟨next, ?_, hsoundNext, ?_⟩
    · rw [bumps, foldlM_append]
      change (bumps (Ring.empty max) calls >>= _) = _
      rw [hring]
      simpa using hnext
    · rw [hpost, hentries, ledger_concat]

def postedFor (date : UInt32) (bytes : Counters → UInt64)
    (calls : List (UInt32 × Counters)) : ℕ :=
  ((calls.filter (·.1 = date)).map fun call => (bytes call.2).toNat).sum

theorem toNat_total {bytes : Counters → UInt64}
    (hbytes : ∀ left right, bytes (left + right) = bytes left + bytes right)
    (date : UInt32) (start : Counters) (calls : List (UInt32 × Counters)) :
    (bytes (total date start calls)).toNat =
      ((bytes start).toNat + postedFor date bytes calls) % 2 ^ 64 := by
  induction calls using reverseRecOn with
  | nil =>
    have hlt := UInt64.toNat_lt (bytes start)
    simp only [total, postedFor, filter_nil, foldl_nil,
      map_nil, sum_nil, Nat.add_zero]
    rw [Nat.mod_eq_of_lt hlt]
  | append_singleton calls call ih =>
    rw [total_concat]
    by_cases hdate : call.1 = date
    · rw [if_pos hdate, hbytes, UInt64.toNat_add, ih]
      simp [postedFor, hdate, Nat.add_assoc]
    · rw [if_neg hdate, ih]
      simp [postedFor, hdate]

/-- The call that entered the date of an entry, with the calls before and
behind it: there was no such entry before, there has been one since, and its
counters are the bytes since, modulo `2 ^ 64`. -/
structure Since (max : ℕ) (slot : Data) (before : List (UInt32 × Counters))
    (amount : Counters) (behind : List (UInt32 × Counters)) : Prop where
  entered : ∃ ring, bumps (Ring.empty max) before = some ring ∧
    ∀ other ∈ ring.data, other.xtime ≠ slot.xtime
  kept : ∀ count, ∃ ring, bumps (Ring.empty max)
      (before ++ (slot.xtime, amount) :: behind.take count) = some ring ∧
    ∃ other ∈ ring.data, other.xtime = slot.xtime
  rx : slot.counter.rx.toNat =
    (amount.rx.toNat + postedFor slot.xtime Counters.rx behind) % 2 ^ 64
  tx : slot.counter.tx.toNat =
    (amount.tx.toNat + postedFor slot.xtime Counters.tx behind) % 2 ^ 64

theorem since_of_account (hmax : 0 < max)
    {before behind : List (UInt32 × Counters)} {amount : Counters}
    (hdates : ∀ call ∈ before ++ (slot.xtime, amount) :: behind, call.1 ≠ 0)
    (haccount : Account max (pair slot) before amount behind) :
    Since max slot before amount behind := by
  have hdate : slot.xtime ≠ 0 := hdates (slot.xtime, amount) (by simp)
  have htotal : slot.counter = total slot.xtime amount behind :=
    haccount.total_eq
  refine ⟨?_, fun count => ?_, ?_, ?_⟩
  · obtain ⟨ring, hring, -, hentries⟩ := bumps_ledger hmax
      fun call hcall => hdates call (mem_append_left _ hcall)
    refine ⟨ring, hring, fun other hother hsame => haccount.fresh ?_⟩
    rw [← hentries]
    exact (mem_keys_entries hdate).mpr ⟨other, hother, hsame⟩
  · have hsub : (before ++ (slot.xtime, amount) :: behind.take count) ⊆
        before ++ (slot.xtime, amount) :: behind :=
      ((Sublist.refl before).append
        ((take_sublist count behind).cons_cons _)).subset
    obtain ⟨ring, hring, -, hentries⟩ := bumps_ledger hmax
      fun call hcall => hdates call (hsub hcall)
    refine ⟨ring, hring, (mem_keys_entries hdate).mp ?_⟩
    rw [hentries]
    exact haccount.kept count
  · rw [htotal]
    exact toNat_total (fun _ _ => rfl) _ _ _
  · rw [htotal]
    exact toNat_total (fun _ _ => rfl) _ _ _

/-- The history after any calls of `bump` with dates, from an empty ring: the
dates of its entries differ, each entry has the bytes of its date since it was
entered, and calls in the order of their dates leave the latest dates, which
`save_datajs` lists from the earliest on. -/
theorem bumps_history {max : ℕ} (hmax : 0 < max)
    (calls : List (UInt32 × Counters)) (hdates : ∀ call ∈ calls, call.1 ≠ 0) :
    ∃ ring listing, bumps (Ring.empty max) calls = some ring ∧
      saveDatajs ring = some listing ∧
      (∀ date ≠ 0, ring.data.countP (·.xtime = date) ≤ 1) ∧
      (∀ slot ∈ ring.data, slot.xtime ≠ 0 → ∃ before amount behind,
        calls = before ++ (slot.xtime, amount) :: behind ∧
          Since max slot before amount behind) ∧
      ((calls.map Prod.fst).Pairwise (·.toNat ≤ ·.toNat) →
        Latest UInt32.toNat max (calls.map Prod.fst)
          (listing.map Data.xtime)) := by
  obtain ⟨ring, hring, hsound, hentries⟩ := bumps_ledger hmax hdates
  refine ⟨ring, ring.live, hring, saveDatajs_eq hsound,
    fun date hdate => countP_xtime_le hsound hdate, ?_, fun hordered => ?_⟩
  · intro slot hslot hdate
    have hlive : slot ∈ ring.live :=
      mem_filter.mpr ⟨(mem_ordered ring).mpr hslot, decide_eq_true hdate⟩
    have hentry : pair slot ∈ ledger max calls := by
      rw [← hentries]
      exact mem_map_of_mem hlive
    obtain ⟨before, amount, behind, rfl, haccount⟩ := exists_account hentry
    exact ⟨before, amount, behind, rfl, since_of_account hmax hdates haccount⟩
  · have hlatest := latest_ledger (fun _ _ => UInt32.toNat_inj.mp) hmax hordered
    have hkeys : keys (ledger max calls) = ring.live.map Data.xtime := by
      rw [← hentries, Ring.entries, Ledger.keys, map_map]
      rfl
    rw [hkeys] at hlatest
    exact hlatest

theorem bumps_history_two :
    ∃ ring listing,
      bumps (Ring.empty 2) [(5, ⟨1, 2⟩), (5, ⟨3, 4⟩), (6, ⟨7, 8⟩)] = some ring ∧
        saveDatajs ring = some listing ∧
        Latest UInt32.toNat 2 [5, 5, 6] (listing.map Data.xtime) := by
  obtain ⟨ring, listing, hring, hlisting, -, -, hlatest⟩ :=
    bumps_history (show 0 < 2 by decide)
      [(5, ⟨1, 2⟩), (5, ⟨3, 4⟩), (6, ⟨7, 8⟩)] (by decide)
  exact ⟨ring, listing, hring, hlisting, hlatest (by decide)⟩

end Tomato64.Stats
