import Mathlib.Tactic.IntervalCases
import Tomato64.Rc.Rcheck

/-!
# The jumps that a run of `rcheck` leaves

The mask `rrules_activated` has a bit for each rule.  A run whose commands
succeed makes the bit of every enabled rule agree with its schedule, and keeps
the jumps of `restrict` in step with the bits.
-/

namespace Tomato64.Restrict

open List Tomato64.Run Scan Text

variable {nrule : ℕ}

/-- The bit of a rule is its own as long as it fits an `int`. -/
theorem ruleMask_eq (hlow : nrule ≤ 30) :
    ruleMask nrule = BitVec.twoPow 64 nrule := by
  interval_cases nrule <;> decide

theorem and_ruleMask_ne_zero (hlow : nrule ≤ 30) (activated : BitVec 64) :
    activated &&& ruleMask nrule ≠ 0 ↔ activated.getLsbD nrule = true := by
  rw [ruleMask_eq hlow, BitVec.twoPow_eq]
  exact and_shiftLeft_ne_zero activated (by omega)

theorem getLsbD_record (hlow : nrule ≤ 30) (pass : Pass)
    (insch : Bool) (index : ℕ) :
    (pass.record nrule insch).activated.getLsbD index =
      if index = nrule then insch else pass.activated.getLsbD index := by
  have hwidth : nrule < 64 := by omega
  rw [Pass.record, ruleMask_eq hlow]
  by_cases hindex : index = nrule
  · subst hindex
    cases insch <;> simp [hwidth]
  have hother : nrule ≠ index := fun heq => hindex heq.symm
  have hbound := pass.activated.getLsbD_of_ge index
  by_cases hlarge : 64 ≤ index
  · cases insch <;> simp [hindex, hother, hbound hlarge]
  · have hsmall := Nat.lt_of_not_le hlarge
    cases insch with
    | true => simp [hindex, hother]
    | false => simp [hindex, hsmall]

/-! ## The chains of the rules -/

theorem valueOf_twoDigits (number : ℕ) :
    valueOf 10 (twoDigits number) = number := by
  rw [twoDigits]
  split_ifs
  · exact valueOf_decimal number
  · exact valueOf_decimal number

theorem Rule.chain_inj {left right : Rule} {lnumber rnumber : ℕ}
    (hchain : left.chain lnumber = right.chain rnumber) :
    lnumber = rnumber := by
  have hdigits (rule : Rule) (nrule : ℕ) :
      (rule.chain nrule).drop 4 = twoDigits nrule := by
    rw [Rule.chain]
    split_ifs <;> rfl
  have hdrop := congrArg (List.drop 4) hchain
  rw [hdigits, hdigits] at hdrop
  rw [← valueOf_twoDigits lnumber, hdrop, valueOf_twoDigits]

/-! ## Jumps in step with the mask -/

variable (settings : Settings)

/-- The enabled rules. -/
def Settings.Has (nrule : ℕ) (rule : Rule) : Prop :=
  nrule < maxNrules ∧ settings.rule nrule = some rule

/-- The mask has the bits of enabled rules only, and `restrict` jumps, once
each, to the chains of those that are not about the wireless. -/
structure Tracks (settings : Settings) (activated : BitVec 64)
    (jumps : List Bytes) : Prop where
  enabled : ∀ nrule, activated.getLsbD nrule = true →
    ∃ rule, settings.Has nrule rule
  nodup : jumps.Nodup
  mem_iff : ∀ chain, chain ∈ jumps ↔ ∃ nrule rule, settings.Has nrule rule ∧
    rule.wireless = false ∧ activated.getLsbD nrule = true ∧
      chain = rule.chain nrule

/-- Two masks differ at most in the bit of a rule. -/
def Sets (before after : BitVec 64) (nrule : ℕ) (insch : Bool) : Prop :=
  ∀ index, after.getLsbD index =
    if index = nrule then insch else before.getLsbD index

section
variable {settings : Settings} {before after : BitVec 64}
variable {jumps : List Bytes} {nrule : ℕ} {rule : Rule}

variable (htracks : Tracks settings before jumps)
include htracks

variable (hhas : settings.Has nrule rule)
include hhas

theorem Tracks.enabled_of_sets {insch : Bool}
    (hsets : Sets before after nrule insch) (index : ℕ)
    (hbit : after.getLsbD index = true) : ∃ rule, settings.Has index rule := by
  rw [hsets] at hbit
  split_ifs at hbit with hindex
  · exact ⟨rule, hindex ▸ hhas⟩
  · exact htracks.enabled index hbit

theorem Tracks.chain_mem_iff (hwireless : rule.wireless = false) :
    rule.chain nrule ∈ jumps ↔ before.getLsbD nrule = true := by
  rw [htracks.mem_iff]
  constructor
  · rintro ⟨other, otherRule, -, -, hbit, hchain⟩
    rwa [Rule.chain_inj hchain]
  · intro hbit
    exact ⟨nrule, rule, hhas, hwireless, hbit, rfl⟩

/-- A rule that is not at hand keeps its jump. -/
theorem Tracks.other_iff {insch : Bool}
    (hsets : Sets before after nrule insch) {chain : Bytes}
    (hchain : rule.wireless = false → chain ≠ rule.chain nrule) :
    chain ∈ jumps ↔ ∃ other otherRule, settings.Has other otherRule ∧
      otherRule.wireless = false ∧ after.getLsbD other = true ∧
        chain = otherRule.chain other := by
  have hsame (other : ℕ) (otherRule : Rule)
      (hother : settings.Has other otherRule)
      (hwireless : otherRule.wireless = false)
      (heq : chain = otherRule.chain other) :
      after.getLsbD other = before.getLsbD other := by
    have hne : other ≠ nrule := by
      rintro rfl
      obtain rfl : otherRule = rule :=
        Option.some.inj (hother.2.symm.trans hhas.2)
      exact hchain hwireless heq
    rw [hsets, if_neg hne]
  rw [htracks.mem_iff]
  constructor
  · rintro ⟨other, otherRule, hother, hwireless, hbit, heq⟩
    refine ⟨other, otherRule, hother, hwireless, ?_, heq⟩
    rw [hsame other otherRule hother hwireless heq, hbit]
  · rintro ⟨other, otherRule, hother, hwireless, hbit, heq⟩
    refine ⟨other, otherRule, hother, hwireless, ?_, heq⟩
    rw [← hsame other otherRule hother hwireless heq, hbit]

theorem Tracks.wireless (hwireless : rule.wireless = true)
    {insch : Bool} (hsets : Sets before after nrule insch) :
    Tracks settings after jumps where
  enabled := htracks.enabled_of_sets hhas hsets
  nodup := htracks.nodup
  mem_iff chain := by
    apply htracks.other_iff hhas hsets
    intro hfalse
    rw [hwireless] at hfalse
    exact Bool.noConfusion hfalse

theorem Tracks.activate (hwireless : rule.wireless = false)
    (hbit : before.getLsbD nrule = false)
    (hsets : Sets before after nrule true) :
    Tracks settings after (jumps ++ [rule.chain nrule]) where
  enabled := htracks.enabled_of_sets hhas hsets
  nodup := by
    have habsent : rule.chain nrule ∉ jumps := by
      rw [htracks.chain_mem_iff hhas hwireless, hbit]
      exact Bool.false_ne_true
    rw [nodup_append_comm]
    exact nodup_cons.mpr ⟨habsent, htracks.nodup⟩
  mem_iff chain := by
    rw [mem_append, mem_singleton]
    by_cases hchain : chain = rule.chain nrule
    · have hset : after.getLsbD nrule = true := by rw [hsets, if_pos rfl]
      exact ⟨fun _ => ⟨nrule, rule, hhas, hwireless, hset, hchain⟩,
        fun _ => .inr hchain⟩
    · rw [or_iff_left hchain]
      exact htracks.other_iff hhas hsets fun _ => hchain

theorem Tracks.deactivate (hsets : Sets before after nrule false) :
    Tracks settings after (jumps.erase (rule.chain nrule)) where
  enabled := htracks.enabled_of_sets hhas hsets
  nodup := htracks.nodup.erase _
  mem_iff chain := by
    rw [htracks.nodup.mem_erase_iff]
    by_cases hchain : chain = rule.chain nrule
    · constructor
      · rintro ⟨hne, -⟩
        exact absurd hchain hne
      · rintro ⟨other, otherRule, -, -, hbit, heq⟩
        rw [hsets, if_pos (Rule.chain_inj (heq.symm.trans hchain))] at hbit
        exact Bool.noConfusion hbit
    · rw [and_iff_right hchain]
      exact htracks.other_iff hhas hsets fun _ => hchain

end

/-! ## One rule -/

section
variable {settings : Settings} {run : Run}
variable (hsucceeds : ∀ command, run.succeeds command = true)
include hsucceeds

theorem switch_tracks {pass : Pass} {rule : Rule} {insch : Bool}
    (hlow : nrule ≤ 30) (hhas : settings.Has nrule rule)
    (htracks : Tracks settings pass.activated pass.jumps)
    (hbit : pass.activated.getLsbD nrule = !insch) :
    Tracks settings (pass.switch run nrule rule insch).activated
        (pass.switch run nrule rule insch).jumps ∧
      Sets pass.activated (pass.switch run nrule rule insch).activated nrule
        insch := by
  rw [Pass.switch]
  cases hwireless : rule.wireless with
  | true =>
    have hsets := getLsbD_record hlow pass insch
    exact ⟨htracks.wireless hhas hwireless hsets, hsets⟩
  | false =>
    have hmem := htracks.chain_mem_iff hhas hwireless
    cases insch with
    | true =>
      have habsent : rule.chain nrule ∉ pass.jumps := by
        rw [hmem, hbit]
        exact Bool.false_ne_true
      have hsets := getLsbD_record hlow pass true
      simp only [switchChain, iptables, hsucceeds, habsent, if_true]
      exact ⟨htracks.activate hhas hwireless hbit hsets, hsets⟩
    | false =>
      have hpresent : rule.chain nrule ∈ pass.jumps := hmem.mpr hbit
      have hsets := getLsbD_record hlow pass false
      simp only [switchChain, iptables, hsucceeds, hpresent, if_true]
      exact ⟨htracks.deactivate hhas hsets, hsets⟩

end

/-- What a run makes of the bit of a rule. -/
def Settings.target (clock : Clock) (before : BitVec 64) (nrule : ℕ) : Bool :=
  match settings.rule nrule with
  | none => before.getLsbD nrule
  | some rule => (clock.insch rule).getD (before.getLsbD nrule)

/-- The rules have numbers for which the mask has a bit of their own. -/
def Settings.Low : Prop :=
  ∀ nrule rule, settings.Has nrule rule → nrule ≤ 30

/-- Two passes agree but for the counters. -/
structure Pass.Agrees (left right : Pass) : Prop where
  activated : left.activated = right.activated
  jumps : left.jumps = right.jumps
  radio : left.radio = right.radio

/-- Either the bit of a rule is as it should be and only the counters change,
or the rule is switched. -/
theorem checkRule_effect {settings : Settings} (hlow : settings.Low)
    (run : Run) (pass : Pass) (hnrule : nrule < maxNrules) :
    (settings.target run.clock pass.activated nrule =
        pass.activated.getLsbD nrule ∧
      (checkRule settings run pass nrule).Agrees pass) ∨
    ∃ rule insch counted, settings.Has nrule rule ∧
      run.clock.insch rule = some insch ∧
      pass.activated.getLsbD nrule = (!insch) ∧ Pass.Agrees counted pass ∧
      checkRule settings run pass nrule =
        counted.switch run nrule rule insch := by
  have hself : pass.Agrees pass := ⟨rfl, rfl, rfl⟩
  cases hrule : settings.rule nrule with
  | none =>
    left
    simp only [Settings.target, checkRule, hrule]
    exact ⟨trivial, hself⟩
  | some rule =>
    have hhas : settings.Has nrule rule := ⟨hnrule, hrule⟩
    have hmask := and_ruleMask_ne_zero (hlow nrule rule hhas) pass.activated
    cases hinsch : run.clock.insch rule with
    | none =>
      left
      simp only [Settings.target, checkRule, hrule, hinsch, Option.getD_none]
      exact ⟨trivial, rfl, rfl, rfl⟩
    | some insch =>
      by_cases hsame : insch = pass.activated.getLsbD nrule
      · left
        simp only [Settings.target, checkRule, hrule, hinsch, hmask,
          Bool.decide_eq_true, Option.getD_some, if_pos hsame]
        exact ⟨hsame, rfl, rfl, rfl⟩
      · right
        simp only [checkRule, hrule, hinsch, hmask, Bool.decide_eq_true,
          if_neg hsame]
        refine ⟨rule, insch, _, hhas, hinsch, ?_, ?_, rfl⟩
        · exact Bool.eq_not.mpr fun heq => hsame heq.symm
        · exact ⟨rfl, rfl, rfl⟩

variable {rule : Rule}

theorem Settings.target_of_insch {settings : Settings} {clock : Clock}
    {insch : Bool} (hhas : settings.Has nrule rule)
    (hinsch : clock.insch rule = some insch) (before : BitVec 64) :
    settings.target clock before nrule = insch := by
  rw [Settings.target, hhas.2]
  simp only [hinsch, Option.getD_some]

theorem checkRule_tracks {settings : Settings} {run : Run}
    (hsucceeds : ∀ command, run.succeeds command = true)
    (hlow : settings.Low) {pass : Pass} (hnrule : nrule < maxNrules)
    (htracks : Tracks settings pass.activated pass.jumps) :
    Tracks settings (checkRule settings run pass nrule).activated
        (checkRule settings run pass nrule).jumps ∧
      Sets pass.activated (checkRule settings run pass nrule).activated nrule
        (settings.target run.clock pass.activated nrule) := by
  rcases checkRule_effect hlow run pass hnrule with
    ⟨htarget, hagrees⟩ | ⟨rule, insch, counted, hhas, hinsch, hbit, hagrees, heq⟩
  · rw [htarget, hagrees.activated, hagrees.jumps]
    refine ⟨htracks, fun index => ?_⟩
    split_ifs with hindex
    · rw [hindex]
    · rfl
  · rw [heq, Settings.target_of_insch hhas hinsch]
    rw [← hagrees.activated, ← hagrees.jumps] at htracks
    rw [← hagrees.activated] at hbit ⊢
    exact switch_tracks hsucceeds (hlow nrule rule hhas) hhas htracks hbit

/-! ## A whole run -/

section
variable {settings : Settings} {run : Run} {state : State}

/-- After the first rules the bits of those agree with the schedule, the others
are as before. -/
theorem loop_tracks (hsucceeds : ∀ command, run.succeeds command = true)
    (hlow : settings.Low)
    (htracks : Tracks settings state.activated state.jumps) :
    Tracks settings (settings.loop run state).activated
        (settings.loop run state).jumps ∧
      ∀ index, (settings.loop run state).activated.getLsbD index =
        if index < maxNrules then
          settings.target run.clock state.activated index
        else state.activated.getLsbD index := by
  refine foldl_range_induction (checkRule settings run) maxNrules
    (fun count pass => Tracks settings pass.activated pass.jumps ∧
      ∀ index, pass.activated.getLsbD index =
        if index < count then settings.target run.clock state.activated index
        else state.activated.getLsbD index) ⟨htracks, fun index => rfl⟩ ?_
  rintro count pass hcount ⟨htracks, hbits⟩
  obtain ⟨hnext, hsets⟩ := checkRule_tracks hsucceeds hlow hcount htracks
  refine ⟨hnext, fun index => ?_⟩
  have htarget : settings.target run.clock pass.activated count =
      settings.target run.clock state.activated count := by
    simp only [Settings.target, hbits count, lt_irrefl, if_false]
  rw [hsets, htarget, hbits]
  rcases lt_trichotomy index count with hless | rfl | hmore
  · rw [if_neg hless.ne, if_pos hless, if_pos (hless.trans count.lt_succ_self)]
  · rw [if_pos rfl, if_pos index.lt_succ_self]
  · rw [if_neg hmore.ne', if_neg hmore.le.not_gt,
      if_neg (Nat.succ_le_iff.mpr hmore).not_gt]

theorem Rule.covers_of_always (halways : rule.always = true)
    (day : Fin 7) (mins : ℤ) : rule.Covers day mins := by
  obtain ⟨hbegin, -, hdow⟩ := of_decide_eq_true halways
  rw [Rule.Covers, if_pos (.inl hbegin), Rule.Selects, hdow]
  fin_cases day <;> rfl

/-- Whether a rule is to be in force.  Without a clock a rule that is not
always in force stays as it was. -/
def Rule.InForce (rule : Rule) (clock : Clock) (before : Bool) : Prop :=
  if clock.time < y2k ∧ rule.always = false then before = true
  else rule.Covers clock.wday clock.nowMins

theorem target_iff {settings : Settings}
    (hhas : settings.Has nrule rule) (clock : Clock) (before : BitVec 64) :
    settings.target clock before nrule = true ↔
      rule.InForce clock (before.getLsbD nrule) := by
  rw [Settings.target, hhas.2]
  change (clock.insch rule).getD (before.getLsbD nrule) = true ↔ _
  rw [Clock.insch, Rule.InForce]
  by_cases hclock : clock.time < y2k
  · cases halways : rule.always with
    | true =>
      simp only [hclock, if_true, Option.getD_some, and_false,
        Bool.true_eq_false, if_false, true_iff]
      exact Rule.covers_of_always halways clock.wday clock.nowMins
    | false => simp [hclock]
  · simp only [hclock, if_false, Option.getD_some, false_and]
    exact inSched_iff rule clock.wday clock.nowMins

/-- After a run whose commands succeed, `restrict` jumps, once each, to the
chains of the enabled rules that are to be in force and are not about the
wireless.  The mask records the rules that are to be in force. -/
theorem rcheckMain_jumps (settings : Settings) (run : Run) (state : State)
    (hsucceeds : ∀ command, run.succeeds command = true)
    (hlow : settings.Low)
    (htracks : Tracks settings state.activated state.jumps) :
    (rcheckMain settings state run).jumps.Nodup ∧
      (∀ chain, chain ∈ (rcheckMain settings state run).jumps ↔
        ∃ nrule rule, settings.Has nrule rule ∧ rule.wireless = false ∧
          rule.InForce run.clock (state.activated.getLsbD nrule) ∧
          chain = rule.chain nrule) ∧
      ∀ nrule,
        (rcheckMain settings state run).activated.getLsbD nrule = true ↔
          ∃ rule, settings.Has nrule rule ∧
            rule.InForce run.clock (state.activated.getLsbD nrule) := by
  obtain ⟨hnext, hbits⟩ := loop_tracks hsucceeds hlow htracks
  have hbit {nrule : ℕ} {rule : Rule} (hhas : settings.Has nrule rule) :
      (settings.loop run state).activated.getLsbD nrule = true ↔
        rule.InForce run.clock (state.activated.getLsbD nrule) := by
    rw [hbits, if_pos hhas.1]
    exact target_iff hhas run.clock state.activated
  refine ⟨hnext.nodup, fun chain => (hnext.mem_iff chain).trans ?_,
    fun nrule => ?_⟩
  · constructor
    · rintro ⟨nrule, rule, hhas, hwireless, hset, hchain⟩
      exact ⟨nrule, rule, hhas, hwireless, (hbit hhas).mp hset, hchain⟩
    · rintro ⟨nrule, rule, hhas, hwireless, hforce, hchain⟩
      exact ⟨nrule, rule, hhas, hwireless, (hbit hhas).mpr hforce, hchain⟩
  · constructor
    · intro hset
      obtain ⟨rule, hhas⟩ := hnext.enabled nrule hset
      exact ⟨rule, hhas, (hbit hhas).mp hset⟩
    · rintro ⟨rule, hhas, hforce⟩
      exact (hbit hhas).mpr hforce

end

/-! ## Two settings -/

def Settings.single (number : ℕ) (text : Bytes) : Settings where
  rrule nrule := if nrule = number then some text else none
  radioOn := true

theorem Settings.has_single {number : ℕ} {text : Bytes}
    (hhas : (Settings.single number text).Has nrule rule) :
    nrule = number ∧ scanRule text = some rule := by
  obtain ⟨-, hrule⟩ := hhas
  change (if nrule = number then some text else none).bind scanRule =
    some rule at hrule
  by_cases hnumber : nrule = number
  · rw [if_pos hnumber] at hrule
    exact ⟨hnumber, hrule⟩
  · rw [if_neg hnumber, Option.bind_none] at hrule
    exact absurd hrule.symm (Option.some_ne_none rule)

theorem Settings.low_single {number : ℕ} (text : Bytes)
    (hnumber : number ≤ 30) : (Settings.single number text).Low := by
  intro nrule rule hhas
  exact (Settings.has_single hhas).1 ▸ hnumber

/-- The state after the firewall was built. -/
def State.built : State :=
  ⟨0, [], none, false, true⟩

theorem tracks_built :
    Tracks settings State.built.activated State.built.jumps where
  enabled nrule hbit := by simp [State.built] at hbit
  nodup := nodup_nil
  mem_iff chain := by simp [State.built]

/-- The third rule is about a host, from Monday 22:00 to Tuesday 06:00. -/
theorem rcheckMain_jumps_night :
    bytes "rdev03" ∈ (rcheckMain
      (Settings.single 3 (bytes "1|1320|360|2|192.168.1.7|||0|Night"))
      State.built tuesday).jumps := by
  refine ((rcheckMain_jumps _ tuesday State.built (fun _ => rfl)
    (Settings.low_single _ (by decide)) (tracks_built _)).2.1 _).mpr
    ⟨3, ⟨1320, 360, 2#32, 49⟩, ⟨by decide, by decide⟩, rfl, ?_,
      by decide +kernel⟩
  rw [Rule.InForce, if_neg (by decide), ← inSched_iff]
  decide

/-- A rule about the wireless has its bit in the mask as well. -/
theorem rcheckMain_mask_wireless :
    Tracks (Settings.single 0 (bytes "1|-1|-1|127|~|||0|Radio"))
        State.built.activated State.built.jumps ∧
      (∀ command, tuesday.succeeds command = true) ∧
      y2k ≤ tuesday.clock.time ∧
      (Settings.single 0 (bytes "1|-1|-1|127|~|||0|Radio")).Low ∧
      ¬ ∀ nrule, (rcheckMain
          (Settings.single 0 (bytes "1|-1|-1|127|~|||0|Radio"))
          State.built tuesday).activated.getLsbD nrule = true ↔
        ∃ rule, (Settings.single 0 (bytes "1|-1|-1|127|~|||0|Radio")).Has
            nrule rule ∧ rule.wireless = false ∧
          rule.Covers tuesday.clock.wday tuesday.clock.nowMins := by
  refine ⟨tracks_built _, fun _ => rfl, by decide,
    Settings.low_single _ (by decide), fun hall => ?_⟩
  obtain ⟨rule, hhas, hwireless, -⟩ := (hall 0).mp (by decide)
  have hrule : scanRule (bytes "1|-1|-1|127|~|||0|Radio") =
      some ⟨-1, -1, 127#32, 126⟩ := by decide
  obtain rfl := Option.some.inj (hrule.symm.trans (Settings.has_single hhas).2)
  exact absurd hwireless (by decide)

end Tomato64.Restrict
