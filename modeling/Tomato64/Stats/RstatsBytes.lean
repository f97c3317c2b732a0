import Tomato64.Stats.RstatsTable

/-!
# The bytes of an interface

The first reading of an interface synchronises its meter, and from then on each
reading accounts what the counter has grown by.  That makes the growth of the
counter in all, as long as no later reading synchronises again.  One does when
the cleanup has passed over the row: it takes the place of a removed row, keeps
its mark, and the mark is read as a wish to synchronise.

A reading that comes early is put off to the next one.
-/

namespace Tomato64.Rstats

open List Run Stats Text

inductive Direction where
  | rx
  | tx

def Direction.of : Direction → Counters → UInt64
  | .rx, counters => counters.rx
  | .tx, counters => counters.tx

variable (name : Bytes)

/-- What `calc` did with the readings of one interface. -/
def readings (accounts : List Account) : List Account :=
  accounts.filter (·.ifname = name)

/-- The first reading that synchronised, and those behind it. -/
def afterSync : List Account → Option (Counters × List Account)
  | [] => none
  | account :: accounts =>
    if account.outcome = .synced then some (account.counter, accounts)
    else afterSync accounts

variable (direction : Direction) (account : Account)

def accounted : ℕ :=
  (direction.of (account.outcome.bytes.getD ⟨0, 0⟩)).toNat

variable (accounts : List Account)

def total : ℕ :=
  (accounts.map (accounted direction)).sum

/-- The counter of the last reading that was not put off. -/
def settled (first : Counters) (accounts : List Account) : Counters :=
  accounts.foldl (fun last account =>
    if account.outcome = .early then last else account.counter) first

def counterIn (snapshot : Snapshot) : Counters :=
  ((snapshot.interfaces.find? (·.ifname = name)).map (·.counter)).getD ⟨0, 0⟩

/-- There is a reading for each snapshot from the first one on, and the bytes
that were accounted behind the synchronisation are the growth of the counter. -/
structure Conserved (name : Bytes) (snapshots : List Snapshot)
    (accounts : List Account) : Prop where
  complete : (readings name accounts).map (·.counter) <:+
    snapshots.map (counterIn name)
  growth : ∀ {first : Counters} {others : List Account},
    afterSync (readings name accounts) = some (first, others) →
    ∀ direction : Direction,
      (direction.of first).toNat + total direction others =
        (direction.of (settled first others)).toNat

/-! ## The row of an interface -/

def rowOf (rows : List Row) : Option Row :=
  rows.find? (·.ifname = name)

section
variable {snapshot : Snapshot} {interface : Interface}
variable {interfaces : List Interface} {state next : State}
variable {accounts : List Account} {name : Bytes} {row : Row} {rows : List Row}

theorem rowOf_eq_some_iff :
    rowOf name rows = some row ↔ row.ifname = name ∧
      ∃ front back, rows = front ++ row :: back ∧
        ∀ other ∈ front, other.ifname ≠ name := by
  simp [rowOf, find?_eq_some_iff_append]

theorem rowOf_set_of_ne {index : ℕ}
    (meter : Meter) (hrow : rows[index]? = some row) (hne : row.ifname ≠ name) :
    rowOf name (rows.set index ⟨row.ifname, meter⟩) = rowOf name rows := by
  induction rows generalizing index with
  | nil => rfl
  | cons head rows ih =>
    cases index with
    | zero =>
      obtain rfl : head = row := by simpa using hrow
      simp [rowOf, hne]
    | succ index =>
      rw [getElem?_cons_succ] at hrow
      have hrest := ih hrow
      rw [rowOf, rowOf] at hrest
      simp [rowOf, find?_cons, hrest]

theorem rowOf_set_self {index : ℕ} (meter : Meter)
    (hfirst : rows.findIdx? (·.ifname = name) = some index)
    (hrow : rows[index]? = some row) :
    rowOf name (rows.set index ⟨row.ifname, meter⟩) =
      some ⟨row.ifname, meter⟩ := by
  obtain ⟨hlength, hfound, hearlier⟩ := findIdx?_eq_some_iff_getElem.mp hfirst
  obtain rfl : rows.get ⟨index, hlength⟩ = row :=
    Option.some.inj ((getElem?_eq_getElem hlength).symm.trans hrow)
  refine rowOf_eq_some_iff.mpr ⟨of_decide_eq_true hfound, rows.take index,
    rows.drop (index + 1), set_eq_take_append_cons_drop.trans
      (if_pos hlength), ?_⟩
  intro other hother
  obtain ⟨earlier, hless, rfl⟩ := mem_take_iff_getElem.mp hother
  simpa using hearlier earlier (by omega)

variable (heffect : LineEffect snapshot interface state accounts next)
include heffect

/-- The lines of other interfaces leave the row as it is. -/
theorem LineEffect.rowOf_of_ne (hne : interface.ifname ≠ name)
    (hrow : rowOf name state.rows = some row) :
    rowOf name next.rows = some row := by
  cases heffect with
  | skipped => exact hrow
  | @reading index placed read outcome meter fresh next hmonitored hplaced
      hreading hrows hrtd hrestarted =>
      rw [hrows]
      cases hplaced with
      | found hread hname =>
        rw [rowOf_set_of_ne meter hread (by rw [hname]; exact hne), hrow]
      | added =>
        rw [set_append_right _ _ (Nat.le_refl _), rowOf, find?_append]
        rw [rowOf] at hrow
        rw [hrow, Option.some_or]

omit heffect in
theorem LinesEffect.rowOf_of_ne
    (heffect : LinesEffect snapshot interfaces state accounts next)
    (hne : ∀ interface ∈ interfaces, interface.ifname ≠ name)
    (hrow : rowOf name state.rows = some row) :
    rowOf name next.rows = some row := by
  induction heffect with
  | nil => exact hrow
  | cons hline hlines ih =>
    rw [forall_mem_cons] at hne
    exact ih hne.2 (hline.rowOf_of_ne hne.1 hrow)

theorem LineEffect.ifname_eq :
    ∀ account ∈ accounts, account.ifname = interface.ifname := by
  cases heffect with
  | skipped => simp
  | reading => simp

omit heffect in
theorem LinesEffect.readings_of_ne
    (heffect : LinesEffect snapshot interfaces state accounts next)
    (hne : ∀ interface ∈ interfaces, interface.ifname ≠ name) :
    readings name accounts = [] := by
  induction heffect with
  | nil => rfl
  | cons hline hlines ih =>
    rw [forall_mem_cons] at hne
    rw [readings, filter_append]
    refine append_eq_nil_iff.mpr ⟨?_, ih hne.2⟩
    refine filter_eq_nil_iff.mpr fun account haccount => ?_
    rw [hline.ifname_eq account haccount]
    simpa using hne.1

theorem LineEffect.restarted_eq : next.restarted = state.restarted := by
  cases heffect with
  | skipped => rfl
  | reading _ _ _ _ _ hrestarted => exact hrestarted

omit heffect in
theorem LinesEffect.restarted_eq
    (heffect : LinesEffect snapshot interfaces state accounts next) :
    next.restarted = state.restarted := by
  induction heffect with
  | nil => rfl
  | cons hline hlines ih => exact ih.trans hline.restarted_eq

omit heffect in
theorem LinesEffect.of_append {front back : List Interface}
    (heffect : LinesEffect snapshot (front ++ back) state accounts next) :
    ∃ middle first second, accounts = first ++ second ∧
      LinesEffect snapshot front state first middle ∧
      LinesEffect snapshot back middle second next := by
  induction front generalizing state accounts with
  | nil => exact ⟨state, [], accounts, rfl, .nil state, heffect⟩
  | cons interface front ih =>
    cases heffect with
    | cons hline hlines =>
      obtain ⟨middle, first, second, rfl, hfront, hback⟩ := ih hlines
      exact ⟨middle, _, second, (append_assoc _ _ _).symm,
        .cons hline hfront, hback⟩

/-- The line of the interface itself: a full table has no row for it, or its
row, which may be a new one, is read. -/
theorem LineEffect.self
    (hmonitored : monitored snapshot interface.ifname = true)
    (hshort : interface.ifname.length ≤ ifnameLength) :
    (accounts = [] ∧ next = state ∧ rowOf interface.ifname state.rows = none) ∨
    ∃ row fresh outcome meter,
      accounts = [⟨interface.ifname, interface.counter, outcome⟩] ∧
      rowOf interface.ifname next.rows = some ⟨interface.ifname, meter⟩ ∧
      Reading state.restarted snapshot.uptime fresh interface.counter
        row.meter outcome meter ∧
      (rowOf interface.ifname state.rows = some row ∨
        rowOf interface.ifname state.rows = none) := by
  cases heffect with
  | skipped hskip =>
    rcases hskip with hnot | ⟨-, hnone⟩
    · rw [hmonitored] at hnot
      cases hnot
    · refine .inl ⟨rfl, rfl, find?_eq_none.mpr fun row hrow => ?_⟩
      simpa using hnone row hrow
  | @reading index placed row outcome meter fresh next _ hplaced hreading
      hrows hrtd hrestarted =>
      refine .inr ⟨row, fresh, outcome, meter, rfl, ?_, hreading, ?_⟩
      · rw [hrows]
        cases hplaced with
        | found hrow hname hfirst =>
          rw [rowOf_set_self meter hfirst hrow, hname]
        | added hnone =>
          rw [set_append_right _ _ (Nat.le_refl _), Nat.sub_self,
            set_cons_zero, take_of_length_le hshort]
          exact rowOf_eq_some_iff.mpr ⟨rfl, state.rows, [], rfl, hnone⟩
      · cases hplaced with
        | found hrow hname hfirst =>
          refine .inl ?_
          have hset := rowOf_set_self row.meter hfirst hrow
          obtain ⟨hlength, rfl⟩ := List.getElem?_eq_some_iff.mp hrow
          rwa [set_getElem_self] at hset
        | added hnone =>
          refine .inr (find?_eq_none.mpr fun row hrow => ?_)
          simpa using hnone row hrow

omit heffect

/-! ## Behind the cleanup -/

/-- Where no row is removed directly in front, the cleanup of a table is that
of its parts. -/
theorem cleanup_append {front back : List Row}
    (hlast : ∀ last, front.getLast? = some last →
      last.meter.sync = -1 ∨ ¬ due snapshot last = true) :
    cleanup snapshot (front ++ back) =
      cleanup snapshot front ++ cleanup snapshot back := by
  -- The last row of the front is the same in the rest of the loop.
  have hrest : ∀ {head : Row} {rows : List Row} {last : Row},
      rows.getLast? = some last → (head :: rows).getLast? = some last := by
    intro head rows last hrows
    rw [getLast?_cons, hrows, Option.getD_some]
  fun_induction cleanup snapshot front with
  | case1 => rfl
  | case2 head rows hmarked ih =>
    rw [cons_append, cleanup_marked _ hmarked,
      ih fun last hrows => hlast last (hrest hrows), cons_append]
  | case3 head hmarked hdue =>
    exact ((hlast head rfl).elim hmarked (absurd hdue)).elim
  | case4 head hmarked hdue skipped rows ih =>
    rw [cons_append, cons_append, cleanup, if_neg hmarked, if_pos hdue,
      ih fun last hrows => hlast last (hrest (hrest hrows)), cons_append]
  | case5 head rows hmarked hdue ih =>
    rw [cons_append, cleanup_missing _ hmarked hdue,
      ih fun last hrows => hlast last (hrest hrows), cons_append]

theorem rowOf_cleanup {front back : List Row}
    (hname : row.ifname = name) (hnone : ∀ other ∈ front, other.ifname ≠ name)
    (hmarked : row.meter.sync = -1)
    (hlast : ∀ last, front.getLast? = some last →
      last.meter.sync = -1 ∨ ¬ due snapshot last = true) :
    rowOf name (cleanup snapshot (front ++ row :: back)) =
      some (row.setSync 0) := by
  refine rowOf_eq_some_iff.mpr ⟨hname, cleanup snapshot front,
    cleanup snapshot back, ?_, ?_⟩
  · rw [cleanup_append hlast, cleanup_marked back hmarked]
  · intro other hother
    obtain ⟨before, hbefore, rfl | ⟨sync, rfl⟩⟩ := mem_cleanup hother
    · exact hnone other hbefore
    · exact hnone before hbefore

/-- The row in front of that of an interface, or the last one when it has none,
is not removed: it is not one that could be, or a line finds it. -/
def Spared (name : Bytes) (snapshot : Snapshot) (rows : List Row) : Prop :=
  ∀ {index : ℕ} {row : Row}, index + 1 = rows.findIdx (·.ifname = name) →
    rows[index]? = some row → due snapshot row = true →
      matched snapshot rows index

/-- The place of a name among rows that grew. -/
theorem Grown.findIdx_eq {before after front back : List Row}
    (hgrown : Grown before after) (hsplit : after = front ++ row :: back)
    (hname : row.ifname = name) (hnone : ∀ other ∈ front, other.ifname ≠ name)
    (hlength : front.length ≤ before.length) :
    before.findIdx (·.ifname = name) = front.length := by
  have hearlier : ∀ index (hindex : index < front.length),
      (before.get ⟨index, by omega⟩).ifname ≠ name := by
    intro index hindex
    obtain ⟨later, hlater, hlaterName, -⟩ := hgrown.kept
      (getElem?_eq_getElem (show index < before.length by omega))
    rw [hsplit, getElem?_append_left hindex] at hlater
    have hne := hnone later (mem_of_getElem? hlater)
    rw [hlaterName] at hne
    exact hne
  rcases Nat.lt_or_eq_of_le hlength with hless | heq
  · obtain ⟨later, hlater, hlaterName, -⟩ :=
      hgrown.kept (getElem?_eq_getElem hless)
    rw [hsplit, getElem?_append_right (Nat.le_refl _), Nat.sub_self]
      at hlater
    obtain rfl := Option.some.inj hlater
    rw [List.findIdx_eq hless]
    refine ⟨decide_eq_true (hlaterName.symm.trans hname), ?_⟩
    intro index hindex
    exact decide_eq_false (hearlier index hindex)
  · rw [heq, findIdx_eq_length]
    intro other hother
    obtain ⟨index, hindex, rfl⟩ := mem_iff_getElem.mp hother
    exact decide_eq_false (hearlier index (heq ▸ hindex))

/-- Behind the lines, the row in front is marked or not one to be removed. -/
theorem LinesEffect.spared {front back : List Row}
    (heffect : LinesEffect snapshot snapshot.interfaces state accounts next)
    (hspared : Spared name snapshot state.rows)
    (hsplit : next.rows = front ++ row :: back) (hname : row.ifname = name)
    (hnone : ∀ other ∈ front, other.ifname ≠ name) :
    ∀ last, front.getLast? = some last →
      last.meter.sync = -1 ∨ ¬ due snapshot last = true := by
  intro last hlast
  rw [getLast?_eq_getElem?] at hlast
  obtain ⟨hindex, -⟩ := List.getElem?_eq_some_iff.mp hlast
  have hnext : next.rows[front.length - 1]? = some last := by
    rw [hsplit, getElem?_append_left hindex, hlast]
  refine heffect.kept hnext fun hbefore hdue => hspared ?_ hbefore hdue
  obtain ⟨hless, -⟩ := List.getElem?_eq_some_iff.mp hbefore
  have hplace := heffect.grown.findIdx_eq hsplit hname hnone (by omega)
  omega

end

/-! ## Readings in a row -/

/-- A counter that did not go backwards, in either direction. -/
instance : LE Counters :=
  ⟨fun left right => left.rx ≤ right.rx ∧ left.tx ≤ right.tx⟩

instance (left right : Counters) : Decidable (left ≤ right) :=
  inferInstanceAs (Decidable (_ ∧ _))

theorem toNat_differences (fresh : Bool)
    {counter last : Counters} (hle : last ≤ counter) :
    (direction.of last).toNat +
        (direction.of (differences fresh counter last)).toNat =
      (direction.of counter).toNat := by
  cases direction with
  | rx => exact toNat_difference fresh (UInt64.le_iff_toNat_le.mp hle.1)
  | tx => exact toNat_difference fresh (UInt64.le_iff_toNat_le.mp hle.2)

/-- The meter stands at the last reading that was not put off, and the bytes
accounted so far lead up to it. -/
def Tracks (last : Counters) : Prop :=
  ∀ {first : Counters} {others : List Account},
    afterSync accounts = some (first, others) →
      settled first others = last ∧
      ∀ direction : Direction,
        (direction.of first).toNat + total direction others =
          (direction.of last).toNat

theorem afterSync_concat :
    afterSync (accounts ++ [account]) =
      match afterSync accounts with
      | some (first, others) => some (first, others ++ [account])
      | none => afterSync [account] := by
  induction accounts with
  | nil => rfl
  | cons head accounts ih =>
    rw [cons_append, afterSync, afterSync]
    by_cases hsynced : head.outcome = .synced
    · rw [if_pos hsynced, if_pos hsynced]
    · rw [if_neg hsynced, if_neg hsynced, ih]

theorem total_concat :
    total direction (accounts ++ [account]) =
      total direction accounts + accounted direction account := by
  rw [total, total, map_append, sum_append, map_singleton, sum_singleton]

theorem settled_concat (first : Counters) (accounts : List Account)
    (account : Account) :
    settled first (accounts ++ [account]) =
      if account.outcome = .early then settled first accounts
      else account.counter := by
  rw [settled, foldl_append, ← settled]
  rfl

section
variable {restarted fresh : Bool} {uptime : ℤ} {counter : Counters}
variable {meter next : Meter} {outcome : Outcome}

/-- The first reading. -/
theorem tracks_singleton
    (hreading : Reading restarted uptime fresh counter meter outcome next) :
    Tracks [⟨name, counter, outcome⟩] next.last := by
  intro first others hafter
  rw [afterSync] at hafter
  by_cases hsynced : outcome = .synced
  · rw [if_pos hsynced] at hafter
    obtain ⟨rfl, rfl⟩ := Prod.mk.inj (Option.some.inj hafter)
    rw [hreading.last_of_synced hsynced]
    exact ⟨rfl, fun direction => rfl⟩
  · rw [if_neg hsynced] at hafter
    cases hafter

/-- A further reading of a meter that needs no synchronisation. -/
theorem Tracks.concat {accounts : List Account}
    (htracks : Tracks accounts meter.last)
    (hreading : Reading false uptime fresh counter meter outcome next)
    (hsync : meter.sync = 0)
    (hle : (afterSync accounts).isSome → meter.last ≤ counter) :
    Tracks (accounts ++ [⟨name, counter, outcome⟩]) next.last := by
  intro first others hafter
  rw [afterSync_concat] at hafter
  cases hbefore : afterSync accounts with
  | none =>
    rw [hbefore] at hafter
    exact tracks_singleton name hreading hafter
  | some before =>
    obtain ⟨start, between⟩ := before
    rw [hbefore] at hafter
    obtain ⟨rfl, rfl⟩ := Prod.mk.inj (Option.some.inj hafter)
    obtain ⟨hsettled, hgrowth⟩ := htracks hbefore
    have hbelow := hle (by rw [hbefore]; rfl)
    simp only [settled_concat, total_concat]
    by_cases hearly : meter.intervals uptime < 1
    · obtain ⟨rfl, hlast⟩ := hreading.early hsync hearly
      rw [if_pos rfl, hlast]
      refine ⟨hsettled, fun direction => ?_⟩
      have hnothing : accounted direction ⟨name, counter, .early⟩ = 0 := by
        cases direction <;> rfl
      rw [hnothing]
      exact hgrowth direction
    · obtain ⟨rfl, hlast⟩ := hreading.counted hsync (by omega)
      rw [if_neg (by simp), hlast]
      refine ⟨rfl, fun direction => ?_⟩
      have hmore := toNat_differences direction fresh hbelow
      have hsofar := hgrowth direction
      change (direction.of start).toNat + (total direction between +
        (direction.of (differences fresh counter meter.last)).toNat) = _
      omega

end

/-! ## One call -/

section
variable {snapshot : Snapshot} {state next : State} {name : Bytes}

theorem LinesEffect.self {accounts : List Account}
    (heffect : LinesEffect snapshot snapshot.interfaces state accounts next)
    (hpresent : name ∈ snapshot.interfaces.map (·.ifname))
    (hmonitored : monitored snapshot name = true)
    (hshort : name.length ≤ ifnameLength) :
    (readings name accounts = [] ∧ rowOf name state.rows = none) ∨
    ∃ row fresh outcome meter,
      readings name accounts = [⟨name, counterIn name snapshot, outcome⟩] ∧
      rowOf name next.rows = some ⟨name, meter⟩ ∧
      Reading state.restarted snapshot.uptime fresh (counterIn name snapshot)
        row.meter outcome meter ∧
      (rowOf name state.rows = some row ∨ rowOf name state.rows = none) := by
  obtain ⟨interface, hinterface, rfl⟩ := mem_map.mp hpresent
  obtain ⟨front, back, hsplit⟩ := append_of_mem hinterface
  have hdistinct := snapshot.distinct
  rw [hsplit, map_append, map_cons, nodup_middle, nodup_cons, mem_append,
    not_or] at hdistinct
  have hfrontNe : ∀ other ∈ front, other.ifname ≠ interface.ifname :=
    fun other hother heq => hdistinct.1.1 (heq ▸ mem_map_of_mem hother)
  have hbackNe : ∀ other ∈ back, other.ifname ≠ interface.ifname :=
    fun other hother heq => hdistinct.1.2 (heq ▸ mem_map_of_mem hother)
  have hcounter : counterIn interface.ifname snapshot = interface.counter := by
    have hfind : snapshot.interfaces.find? (·.ifname = interface.ifname) =
        some interface := by
      rw [hsplit, find?_append, find?_eq_none.mpr (by
        simpa using hfrontNe), Option.none_or, find?_cons_of_pos (by simp)]
    rw [counterIn, hfind]
    rfl
  rw [hsplit] at heffect
  obtain ⟨middle, first, second, rfl, hfront, hrest⟩ := heffect.of_append
  obtain @⟨_⟩ | @⟨_, _, _, after, _, own, others, hline, hback⟩ := hrest
  have hreadings : readings interface.ifname (first ++ (own ++ others)) =
      own := by
    have hown : readings interface.ifname own = own :=
      filter_eq_self.mpr fun account haccount =>
        decide_eq_true (hline.ifname_eq account haccount)
    rw [readings, filter_append, filter_append]
    change readings _ first ++ (readings _ own ++ readings _ others) = own
    rw [hfront.readings_of_ne hfrontNe, hback.readings_of_ne hbackNe, hown,
      nil_append, append_nil]
  rw [hreadings, hcounter]
  rcases hline.self hmonitored hshort with
    ⟨rfl, -, hnone⟩ | ⟨row, fresh, outcome, meter, rfl, hafter, hreading, hrow⟩
  · refine .inl ⟨rfl, ?_⟩
    cases hstate : rowOf interface.ifname state.rows with
    | none => rfl
    | some row =>
      rw [hfront.rowOf_of_ne hfrontNe hstate] at hnone
      cases hnone
  · refine .inr ⟨row, fresh, outcome, meter, rfl,
      hback.rowOf_of_ne hbackNe hafter, hfront.restarted_eq ▸ hreading, ?_⟩
    cases hstate : rowOf interface.ifname state.rows with
    | none => exact .inr rfl
    | some before =>
      rw [hfront.rowOf_of_ne hfrontNe hstate] at hrow
      rcases hrow with hsame | hnone
      · exact .inl hsame
      · cases hnone

theorem LinesEffect.rowOf_cleanup {accounts : List Account} {meter : Meter}
    (heffect : LinesEffect snapshot snapshot.interfaces state accounts next)
    (hspared : Spared name snapshot state.rows)
    (hrow : rowOf name next.rows = some ⟨name, meter⟩)
    (hmarked : meter.sync = -1) :
    rowOf name (cleanup snapshot next.rows) =
      some ⟨name, { meter with sync := 0 }⟩ := by
  obtain ⟨hname, front, back, hsplit, hnone⟩ := rowOf_eq_some_iff.mp hrow
  have hlast := heffect.spared hspared hsplit hname hnone
  rw [hsplit]
  exact Rstats.rowOf_cleanup hname hnone hmarked hlast

/-- After the snapshots `before`, with `after` still to come: the interface was
not read, or its row needs no synchronisation and stands at its last reading. -/
structure Steady (name : Bytes) (before after : List Snapshot)
    (result : List Account × State) : Prop where
  inRange : result.2.InRange
  restarted : result.2.restarted = true → result.2.rows = []
  complete : (readings name result.1).map (·.counter) <:+
    before.map (counterIn name)
  row : readings name result.1 = [] ∨
    ∃ row, rowOf name result.2.rows = some row ∧ row.meter.sync = 0 ∧
      Tracks (readings name result.1) row.meter.last ∧
      ((afterSync (readings name result.1)).isSome →
        ∀ snapshot ∈ after, row.meter.last ≤ counterIn name snapshot)

theorem readings_append (name : Bytes) (first second : List Account) :
    readings name (first ++ second) =
      readings name first ++ readings name second :=
  filter_append _ _

theorem suffix_concat {α : Type} {short long : List α} (value : α)
    (hsuffix : short <:+ long) : short ++ [value] <:+ long ++ [value] := by
  obtain ⟨front, rfl⟩ := hsuffix
  exact ⟨front, (append_assoc _ _ _).symm⟩

/-- What a call of `calc` must find for an interface. -/
structure Undisturbed (name : Bytes) (result : List Account × State)
    (snapshot : Snapshot) : Prop where
  present : name ∈ snapshot.interfaces.map (·.ifname)
  monitored : monitored snapshot name = true
  spared : Spared name snapshot result.2.rows

variable {result : List Account × State}

/-- One more reading of a row that stands at the last one, or the first
reading. -/
theorem Steady.reading {before after : List Snapshot} {row : Row} {fresh : Bool}
    {outcome : Outcome} {meter : Meter}
    (hsteady : Steady name before (snapshot :: after) result)
    (hreading : Reading result.2.restarted snapshot.uptime fresh
      (counterIn name snapshot) row.meter outcome meter)
    (hrow : rowOf name result.2.rows = some row ∨
      rowOf name result.2.rows = none) (hgrows : ∀ later ∈ after,
      counterIn name snapshot ≤ counterIn name later) :
    Tracks (readings name result.1 ++
        [⟨name, counterIn name snapshot, outcome⟩]) meter.last ∧
      ((afterSync (readings name result.1 ++
          [⟨name, counterIn name snapshot, outcome⟩])).isSome →
        ∀ later ∈ after, meter.last ≤ counterIn name later) := by
  rcases hsteady.row with hempty | ⟨old, hold, hsync, htracks, hle⟩
  · rw [hempty, nil_append]
    refine ⟨tracks_singleton name hreading, ?_⟩
    intro hsome later hlater
    have hsynced : outcome = .synced := by
      by_contra hne
      rw [afterSync, if_neg hne] at hsome
      cases hsome
    rw [hreading.last_of_synced hsynced]
    exact hgrows later hlater
  · obtain rfl : old = row := by
      rcases hrow with hsame | hnone
      · exact Option.some.inj (hold.symm.trans hsame)
      · rw [hold] at hnone
        cases hnone
    -- A row is only there once the first call is over.
    have hrestarted : result.2.restarted = false := by
      by_contra hne
      rw [hsteady.restarted (by simpa using hne)] at hold
      cases hold
    rw [hrestarted] at hreading
    refine ⟨htracks.concat name hreading hsync fun hsome =>
      hle hsome snapshot mem_cons_self, ?_⟩
    intro hsome later hlater
    rcases hreading.last_eq hsync with ⟨rfl, hsame⟩ | hcounter
    swap
    · rw [hcounter]
      exact hgrows later hlater
    rw [hsame]
    refine hle ?_ later (mem_cons_of_mem _ hlater)
    rw [afterSync_concat] at hsome
    cases hbefore : afterSync (readings name result.1) with
    | some first => rfl
    | none =>
      rw [hbefore] at hsome
      cases hsome

theorem step_steady {before after : List Snapshot}
    (hshort : name.length ≤ ifnameLength)
    (hsteady : Steady name before (snapshot :: after) result)
    (hundisturbed : Undisturbed name result snapshot) (hgrows : ∀ later ∈ after,
      counterIn name snapshot ≤ counterIn name later) :
    ∃ next, step result snapshot = some next ∧
      Steady name (before ++ [snapshot]) after next := by
  obtain ⟨accounts, read, next, hcalc, hnextRange, heffect, rfl⟩ :=
    calc_effect snapshot hsteady.inRange
  refine ⟨(result.1 ++ accounts, _), by rw [step, hcalc]; rfl, ?_⟩
  rcases heffect.self hundisturbed.present hundisturbed.monitored hshort with
    ⟨hnothing, hnone⟩ |
    ⟨row, fresh, outcome, meter, hone, hread, hreading, hrow⟩
  · -- The table was full, so there was no reading before either.
    have hempty : readings name (result.1 ++ accounts) = [] := by
      rcases hsteady.row with hempty | ⟨row, hrow, -⟩
      · rw [readings_append, hempty, hnothing, append_nil]
      · rw [hnone] at hrow
        cases hrow
    exact
      { inRange := hnextRange
        restarted := fun hrestarted => (Bool.false_ne_true hrestarted).elim
        complete := by
          rw [hempty]
          exact nil_suffix
        row := .inl hempty }
  · have hreadings : readings name (result.1 ++ accounts) =
        readings name result.1 ++
          [⟨name, counterIn name snapshot, outcome⟩] := by
      rw [readings_append, hone]
    refine
      { inRange := hnextRange
        restarted := fun hrestarted => (Bool.false_ne_true hrestarted).elim
        complete := ?_
        row := .inr ⟨_, heffect.rowOf_cleanup hundisturbed.spared hread
          hreading.marked, rfl, ?_⟩ }
    · rw [hreadings, map_append, map_append]
      exact suffix_concat _ hsteady.complete
    · dsimp only
      rw [hreadings]
      exact hsteady.reading hreading hrow hgrows

/-- From call to call, while the counter grows and nothing disturbs the row. -/
theorem foldlM_steady {before after : List Snapshot}
    (hshort : name.length ≤ ifnameLength)
    (hsteady : Steady name before after result)
    (hgrows : (after.map (counterIn name)).Pairwise (· ≤ ·))
    (hguarded : Guarded step (Undisturbed name) result after) :
    ∃ final, after.foldlM step result = some final ∧
      Steady name (before ++ after) [] final := by
  induction after generalizing before result with
  | nil =>
    rw [append_nil]
    exact ⟨result, rfl, hsteady⟩
  | cons snapshot after ih =>
    rw [map_cons, pairwise_cons] at hgrows
    obtain ⟨next, hnext, hsteadyNext⟩ :=
      step_steady hshort hsteady hguarded.1 fun later hlater =>
        hgrows.1 _ (mem_map_of_mem hlater)
    obtain ⟨final, hfinal, hsteadyFinal⟩ :=
      ih hsteadyNext hgrows.2 (hguarded.2 next hnext)
    rw [append_assoc] at hsteadyFinal
    refine ⟨final, ?_, hsteadyFinal⟩
    rw [foldlM_cons, hnext]
    exact hfinal

end

/-- In a run in which an interface with a name that fits is always there, its
counter grows and the row in front of its own is never removed, the bytes that
are accounted to it are the growth of its counter. -/
theorem run_conserved {name : Bytes} {snapshots : List Snapshot}
    (hshort : name.length ≤ ifnameLength)
    (hgrows : (snapshots.map (counterIn name)).Pairwise (· ≤ ·))
    (hguarded : Guarded step (Undisturbed name) ([], State.start) snapshots) :
    ∃ accounts state, run snapshots = some (accounts, state) ∧
      Conserved name snapshots accounts := by
  have hstart : Steady name [] snapshots ([], State.start) :=
    { inRange := start_inRange
      restarted := fun _ => rfl
      complete := nil_suffix
      row := .inl rfl }
  obtain ⟨⟨accounts, state⟩, hrun, hsteady⟩ :=
    foldlM_steady hshort hstart hgrows hguarded
  refine ⟨accounts, state, hrun, hsteady.complete, ?_⟩
  intro first others hafter direction
  rcases hsteady.row with hempty | ⟨row, -, -, htracks, -⟩
  · rw [hempty] at hafter
    cases hafter
  · obtain ⟨hsettled, hgrowth⟩ := htracks hafter
    rw [hsettled]
    exact hgrowth direction

theorem run_conserved_modem :
    ∃ accounts state,
      run [modemSnapshot 0 ⟨100, 10⟩, wanSnapshot 60 ⟨300, 20⟩] =
          some (accounts, state) ∧
        Conserved (bytes "vlan2")
          [modemSnapshot 0 ⟨100, 10⟩, wanSnapshot 60 ⟨300, 20⟩] accounts := by
  refine run_conserved (by decide) (by decide)
    ⟨⟨by decide, by decide, ?_⟩, fun next hnext =>
      ⟨⟨by decide, by decide, ?_⟩, fun _ _ => trivial⟩⟩
  · intro index row _ hrow
    exact absurd hrow (by simp [State.start])
  · intro index row _ hrow hdue
    exact (not_due_modem hnext hrow hdue).elim

/-- `usb0` is there at the start only.  When its row is removed, after eleven
minutes, the row of `vlan2` keeps its mark, and the 1000 bytes of the next
minute are not accounted. -/
theorem run_lost :
    ((run (modemSnapshot 0 ⟨0, 0⟩ :: (range 12).map fun (minute : ℕ) =>
        wanSnapshot (60 * (minute + 1))
          ⟨1000 * UInt64.ofNat (minute + 1), 0⟩)).bind fun result =>
      (afterSync (readings (bytes "vlan2") result.1)).map
        fun (first, others) => (first.rx, total .rx others,
          (settled first others).rx)) =
    some (0, 11000, 12000) := by
  decide +kernel

end Tomato64.Rstats
