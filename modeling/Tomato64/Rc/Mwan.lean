import Mathlib.Data.List.Basic
import Mathlib.Order.Lattice
import Tomato64.Core.Run
import Tomato64.Core.Text

/-!
# The default route over several WANs

`mwan_load_balance` looks at the WANs, decides which of them take part in the
load balancing or in the failover, and replaces the default route.
-/

namespace Tomato64.Mwan

open List Run Text

/-- The characters of `mwan_curr`: `0`, `1` and `2`. -/
inductive Status where
  | down
  | standby
  | routing
deriving DecidableEq

/-- What `get_wan_info` and `get_wan_ip` find out about a WAN. -/
structure WanInfo where
  name : Bytes
  ip : Bytes
  weight : ℤ

def units (num : ℕ) : List ℕ :=
  (range num).map (· + 1)

def wanStatus (up : ℕ → Bool) (info : ℕ → WanInfo) (unit : ℕ) : Status :=
  if up unit then if 0 < (info unit).weight then .routing else .standby
  else .down

/-- `mwan_status_update`, for a number of WANs and what `check_wanup` says.
Without a WAN that routes, those of weight 0 step in. -/
def statusUpdate (num : ℕ) (up : ℕ → Bool) (info : ℕ → WanInfo) (unit : ℕ) :
    Status :=
  if num ≤ 1 ∨ unit ∉ units num then .down
  else
    let allwanDown :=
      (units num).all fun unit => wanStatus up info unit ≠ .routing
    if allwanDown ∧ wanStatus up info unit = .standby ∧
        (info unit).weight = 0 then .routing
    else wanStatus up info unit

/-! ## The route -/

/-- A next hop of the route. -/
structure Hop where
  via : Bytes
  dev : Bytes
  weight : ℤ
deriving DecidableEq

variable (info : ℕ → WanInfo)

def hopOf (unit : ℕ) : Hop :=
  ⟨(info unit).ip, (info unit).name, (info unit).weight⟩

/-- The next hop of a WAN that routes, with weight 1 for a failover. -/
def balancedHop (unit : ℕ) : Hop :=
  if (info unit).weight = 0 then { hopOf info unit with weight := 1 }
  else hopOf info unit

/-- The loop over the WANs behind the first one, with the best so far. -/
def wanDefault (num : ℕ) : ℕ :=
  (range (num - 1)).foldl
    (fun best index =>
      if (info best).weight < (info (index + 2)).weight then index + 2
      else best) 1

/-- What `mwan_load_balance` does: the default routes that it deletes and the
next hops of the one that it sets. -/
structure Balance where
  deleted : List Hop
  hops : List Hop

/-- `mwan_load_balance`.  The WANs are looked at in `mwan_status_update` and a
second time for the next hops. -/
def loadBalance (num : ℕ) (up again : ℕ → Bool) (info : ℕ → WanInfo) :
    Option Balance :=
  if num ≤ 1 then none
  else
    let curr := statusUpdate num up info
    let routing :=
      (units num).filter fun unit => again unit && curr unit = .routing
    let emergency :=
      if (units num).any fun unit => curr unit ≠ .down then []
      else [hopOf info (wanDefault info num)]
    some
      { deleted := ((units num).filter fun unit =>
          (info unit).name ≠ bytes "none").map (hopOf info)
        hops := routing.map (balancedHop info) ++ emergency }

/-! ## Which WANs route -/

section
variable {num : ℕ} {up : ℕ → Bool} {info : ℕ → WanInfo} {unit : ℕ}

theorem mem_units {num unit : ℕ} :
    unit ∈ units num ↔ 1 ≤ unit ∧ unit ≤ num := by
  rw [units, mem_map]
  constructor
  · rintro ⟨index, hindex, rfl⟩
    have hless := mem_range.mp hindex
    omega
  · rintro ⟨hlow, hhigh⟩
    exact ⟨unit - 1, mem_range.mpr (by omega), by omega⟩

theorem wanStatus_eq_down_iff : wanStatus up info unit = .down ↔
    up unit = false := by
  rw [wanStatus]
  split_ifs with hup hweight <;> simp [hup]

theorem wanStatus_eq_routing_iff : wanStatus up info unit = .routing ↔
    up unit = true ∧ 0 < (info unit).weight := by
  rw [wanStatus]
  cases up unit <;> by_cases hweight : 0 < (info unit).weight <;>
    simp [hweight]

theorem wanStatus_eq_standby_iff : wanStatus up info unit = .standby ↔
    up unit = true ∧ ¬ 0 < (info unit).weight := by
  rw [wanStatus]
  cases up unit <;> by_cases hweight : 0 < (info unit).weight <;>
    simp [hweight]

/-- A WAN is recorded as down exactly when it was seen down. -/
theorem statusUpdate_eq_down_iff (hnum : 1 < num) (hunit : unit ∈ units num) :
    statusUpdate num up info unit = .down ↔ up unit = false := by
  have hcase : ¬ (num ≤ 1 ∨ unit ∉ units num) := by
    rintro (hle | hnot)
    · omega
    · exact hnot hunit
  simp only [statusUpdate, if_neg hcase]
  split_ifs with hfailover
  · have hup := (wanStatus_eq_standby_iff.mp hfailover.2.1).1
    simp [hup]
  · exact wanStatus_eq_down_iff

/-- A WAN routes when it is up and has a positive weight, or when no WAN does
and it is up with weight 0. -/
theorem statusUpdate_eq_routing_iff (hnum : 1 < num)
    (hunit : unit ∈ units num) :
    statusUpdate num up info unit = .routing ↔ up unit = true ∧
      (0 < (info unit).weight ∨ (info unit).weight = 0 ∧
        ∀ other ∈ units num, up other = true → ¬ 0 < (info other).weight) := by
  have hcase : ¬ (num ≤ 1 ∨ unit ∉ units num) := by
    rintro (hle | hnot)
    · omega
    · exact hnot hunit
  have hall : ((units num).all fun unit =>
      wanStatus up info unit ≠ .routing) = true ↔
      ∀ other ∈ units num, up other = true → ¬ 0 < (info other).weight := by
    simp only [all_eq_true, decide_eq_true_iff, Ne,
      wanStatus_eq_routing_iff, not_and]
  simp only [statusUpdate, if_neg hcase, hall]
  split_ifs with hfailover
  · have hup := (wanStatus_eq_standby_iff.mp hfailover.2.1).1
    exact ⟨fun _ => ⟨hup, .inr ⟨hfailover.2.2, hfailover.1⟩⟩, fun _ => rfl⟩
  rw [wanStatus_eq_routing_iff]
  constructor
  · rintro ⟨hup, hweight⟩
    exact ⟨hup, .inl hweight⟩
  · rintro ⟨hup, hweight | ⟨hzero, hnone⟩⟩
    · exact ⟨hup, hweight⟩
    · refine absurd ⟨hnone, ?_, hzero⟩ hfailover
      exact wanStatus_eq_standby_iff.mpr ⟨hup, hnone unit hunit hup⟩

end

/-! ## The highest weight -/

/-- The WAN of highest weight, the one of lowest number among equals. -/
structure IsBest (info : ℕ → WanInfo) (num best : ℕ) : Prop where
  mem : best ∈ units num
  highest : ∀ unit ∈ units num, (info unit).weight ≤ (info best).weight
  lowest : ∀ unit ∈ units num, unit < best →
    (info unit).weight < (info best).weight

theorem isBest_wanDefault {num : ℕ} (hnum : 1 < num) :
    IsBest info num (wanDefault info num) := by
  -- After `count` rounds the best of the first `count + 1` WANs is known.
  suffices hloop : IsBest info (num - 1 + 1) (wanDefault info num) by
    rw [show num - 1 + 1 = num by omega] at hloop
    exact hloop
  refine foldl_range_induction _ (num - 1)
    (fun count best => IsBest info (count + 1) best) ?_ ?_
  · refine ⟨mem_units.mpr (by omega), fun unit hunit => ?_,
      fun unit hunit hless => ?_⟩
    · rw [mem_units] at hunit
      obtain rfl : unit = 1 := by omega
      exact le_rfl
    · rw [mem_units] at hunit
      omega
  · intro count best _ hbest
    have hold (unit : ℕ) (hunit : unit ∈ units (count + 1 + 1)) :
        unit ∈ units (count + 1) ∨ unit = count + 2 := by
      rw [mem_units] at hunit ⊢
      omega
    have hmem := mem_units.mp hbest.mem
    split_ifs with hmore
    · refine ⟨mem_units.mpr (by omega), fun unit hunit => ?_,
        fun unit hunit hless => ?_⟩
      · rcases hold unit hunit with hunit | rfl
        · exact (hbest.highest unit hunit).trans hmore.le
        · exact le_rfl
      · rcases hold unit hunit with hunit | rfl
        · exact (hbest.highest unit hunit).trans_lt hmore
        · exact absurd hless (lt_irrefl _)
    · refine ⟨mem_units.mpr (by omega), fun unit hunit => ?_,
        fun unit hunit hless => ?_⟩
      · rcases hold unit hunit with hunit | rfl
        · exact hbest.highest unit hunit
        · exact le_of_not_gt hmore
      · rcases hold unit hunit with hunit | rfl
        · exact hbest.lowest unit hunit hless
        · omega

/-! ## The default route -/

/-- The next hops that the default route is to have: the WANs that are up and
have a positive weight; without those, the ones that are up, with weight 1;
without those, the one of highest weight. -/
structure Balanced (num : ℕ) (up : ℕ → Bool) (info : ℕ → WanInfo)
    (hops : List Hop) : Prop where
  balancing : (∃ unit ∈ units num, up unit = true ∧ 0 < (info unit).weight) →
    hops = ((units num).filter fun unit =>
      up unit && 0 < (info unit).weight).map (hopOf info)
  failover : (∃ unit ∈ units num, up unit = true) →
    (∀ unit ∈ units num, up unit = true → (info unit).weight = 0) →
    hops = ((units num).filter up).map fun unit =>
      { hopOf info unit with weight := 1 }
  emergency : (∀ unit ∈ units num, up unit = false) →
    ∃ best, IsBest info num best ∧ hops = [hopOf info best]
  nonempty : hops ≠ []

section
variable {num : ℕ} {up : ℕ → Bool} {info : ℕ → WanInfo}

/-- The next hops of WANs whose status stays as it was seen. -/
def stableHops (num : ℕ) (up : ℕ → Bool) (info : ℕ → WanInfo) : List Hop :=
  ((units num).filter fun unit =>
      up unit && statusUpdate num up info unit = .routing).map
    (balancedHop info) ++
    if (units num).any fun unit => statusUpdate num up info unit ≠ .down then []
    else [hopOf info (wanDefault info num)]

theorem any_up_iff (hnum : 1 < num) :
    ((units num).any fun unit => statusUpdate num up info unit ≠ .down) =
      true ↔ ∃ unit ∈ units num, up unit = true := by
  rw [any_eq_true]
  constructor
  · rintro ⟨unit, hunit, hstatus⟩
    refine ⟨unit, hunit, ?_⟩
    rw [decide_eq_true_iff, Ne, statusUpdate_eq_down_iff hnum hunit] at hstatus
    exact Bool.not_eq_false _ ▸ hstatus
  · rintro ⟨unit, hunit, hup⟩
    refine ⟨unit, hunit, ?_⟩
    rw [decide_eq_true_iff, Ne, statusUpdate_eq_down_iff hnum hunit, hup]
    exact Bool.noConfusion

theorem stableHops_of_positive (hnum : 1 < num)
    (hweight : ∃ unit ∈ units num, up unit = true ∧ 0 < (info unit).weight) :
    stableHops num up info = ((units num).filter fun unit =>
      up unit && 0 < (info unit).weight).map (hopOf info) := by
  obtain ⟨first, hfirst, hup, hpositive⟩ := hweight
  rw [stableHops, if_pos ((any_up_iff hnum).mpr ⟨first, hfirst, hup⟩),
    append_nil]
  have hfilter : ((units num).filter fun unit =>
      up unit && statusUpdate num up info unit = .routing) =
      (units num).filter fun unit => up unit && 0 < (info unit).weight := by
    apply filter_congr
    intro unit hunit
    have hnone : ¬ ∀ other ∈ units num, up other = true →
        (info other).weight ≤ 0 :=
      fun hall => (hall first hfirst hup).not_gt hpositive
    cases hupunit : up unit <;>
      simp [statusUpdate_eq_routing_iff hnum hunit, hupunit, hnone]
  rw [hfilter]
  apply map_congr_left
  intro unit hunit
  have hpos := (mem_filter.mp hunit).2
  rw [Bool.and_eq_true, decide_eq_true_iff] at hpos
  rw [balancedHop, if_neg hpos.2.ne']

theorem stableHops_of_zero (hnum : 1 < num)
    (hup : ∃ unit ∈ units num, up unit = true)
    (hzero : ∀ unit ∈ units num, up unit = true → (info unit).weight = 0) :
    stableHops num up info = ((units num).filter up).map fun unit =>
      { hopOf info unit with weight := 1 } := by
  rw [stableHops, if_pos ((any_up_iff hnum).mpr hup), append_nil]
  have hfilter : ((units num).filter fun unit =>
      up unit && statusUpdate num up info unit = .routing) =
      (units num).filter up := by
    apply filter_congr
    intro unit hunit
    have hnone : ∀ other ∈ units num, up other = true →
        (info other).weight ≤ 0 :=
      fun other hother hupother => (hzero other hother hupother).le
    cases hupunit : up unit with
    | false => rfl
    | true =>
      have hweight := hzero unit hunit hupunit
      have hroutes : statusUpdate num up info unit = .routing :=
        (statusUpdate_eq_routing_iff hnum hunit).mpr
          ⟨hupunit, .inr ⟨hweight, fun other hother hupother =>
            (hnone other hother hupother).not_gt⟩⟩
      rw [hroutes]
      rfl
  rw [hfilter]
  apply map_congr_left
  intro unit hunit
  obtain ⟨hmem, hupunit⟩ := mem_filter.mp hunit
  rw [balancedHop, if_pos (hzero unit hmem hupunit)]

theorem stableHops_of_down (hnum : 1 < num)
    (hdown : ∀ unit ∈ units num, up unit = false) :
    stableHops num up info = [hopOf info (wanDefault info num)] := by
  have hnone : ¬ ∃ unit ∈ units num, up unit = true := by
    rintro ⟨unit, hunit, hup⟩
    rw [hdown unit hunit] at hup
    exact Bool.false_ne_true hup
  have hfilter : ((units num).filter fun unit =>
      up unit && statusUpdate num up info unit = .routing) = [] := by
    rw [filter_eq_nil_iff]
    intro unit hunit
    rw [hdown unit hunit, Bool.false_and]
    exact Bool.false_ne_true
  rw [stableHops, hfilter, if_neg ((any_up_iff hnum).not.mpr hnone)]
  rfl

theorem balanced_stableHops (hnum : 1 < num)
    (hweight : ∀ unit ∈ units num, 0 ≤ (info unit).weight) :
    Balanced num up info (stableHops num up info) where
  balancing := stableHops_of_positive hnum
  failover := stableHops_of_zero hnum
  emergency hdown :=
    ⟨wanDefault info num, isBest_wanDefault info hnum,
      stableHops_of_down hnum hdown⟩
  nonempty := by
    by_cases hpositive :
        ∃ unit ∈ units num, up unit = true ∧ 0 < (info unit).weight
    · rw [stableHops_of_positive hnum hpositive, Ne, map_eq_nil_iff,
        filter_eq_nil_iff]
      obtain ⟨unit, hunit, hup, hpos⟩ := hpositive
      intro hnone
      exact hnone unit hunit (by simp [hup, hpos])
    by_cases hup : ∃ unit ∈ units num, up unit = true
    · have hzero : ∀ unit ∈ units num, up unit = true →
          (info unit).weight = 0 := by
        intro unit hunit hupunit
        refine le_antisymm (le_of_not_gt fun hpos => ?_) (hweight unit hunit)
        exact hpositive ⟨unit, hunit, hupunit, hpos⟩
      rw [stableHops_of_zero hnum hup hzero, Ne, map_eq_nil_iff,
        filter_eq_nil_iff]
      obtain ⟨unit, hunit, hupunit⟩ := hup
      intro hnone
      exact hnone unit hunit hupunit
    · have hdown : ∀ unit ∈ units num, up unit = false := by
        intro unit hunit
        rw [← Bool.not_eq_true]
        exact fun hupunit => hup ⟨unit, hunit, hupunit⟩
      rw [stableHops_of_down hnum hdown]
      exact cons_ne_nil _ _

end

/-- With weights that are not negative and a state that stays stable during the
call, `mwan_load_balance` sets the balanced default route whenever there is
more than one WAN. -/
theorem loadBalance_balanced (num : ℕ) (up : ℕ → Bool) (info : ℕ → WanInfo)
    (hweight : ∀ unit ∈ units num, 0 ≤ (info unit).weight) :
    (loadBalance num up up info = none ↔ num ≤ 1) ∧
      ∀ balance, loadBalance num up up info = some balance →
        Balanced num up info balance.hops := by
  by_cases hnum : num ≤ 1
  · have hnone : loadBalance num up up info = none := if_pos hnum
    refine ⟨⟨fun _ => hnum, fun _ => hnone⟩, fun balance hbalance => ?_⟩
    exact absurd (hbalance.symm.trans hnone) (Option.some_ne_none balance)
  have hsome : loadBalance num up up info = some
      ⟨((units num).filter fun unit =>
          (info unit).name ≠ bytes "none").map (hopOf info),
        stableHops num up info⟩ := if_neg hnum
  rw [hsome]
  refine ⟨⟨fun hnone => absurd hnone (Option.some_ne_none _),
    fun hle => absurd hle hnum⟩, fun balance hbalance => ?_⟩
  obtain rfl := Option.some.inj hbalance
  exact balanced_stableHops (Nat.lt_of_not_le hnum) hweight

/-- Three WANs with the weights 0, 2 and 0. -/
def threeWans (unit : ℕ) : WanInfo :=
  ⟨bytes "eth" ++ decimal unit, bytes "10.0.0." ++ decimal unit,
    if unit = 2 then 2 else 0⟩

theorem loadBalance_balanced_failover :
    ∃ balance, loadBalance 3 (· ≠ 2) (· ≠ 2) threeWans = some balance ∧
      Balanced 3 (· ≠ 2) threeWans balance.hops := by
  have hweight : ∀ unit ∈ units 3, 0 ≤ (threeWans unit).weight := by
    intro unit _
    rw [threeWans]
    dsimp only
    split_ifs <;> decide
  obtain ⟨hnone, hsome⟩ := loadBalance_balanced 3 (· ≠ 2) threeWans hweight
  cases hbalance : loadBalance 3 (· ≠ 2) (· ≠ 2) threeWans with
  | none => exact absurd (hnone.mp hbalance) (by decide)
  | some balance => exact ⟨balance, rfl, hsome balance hbalance⟩

end Tomato64.Mwan
