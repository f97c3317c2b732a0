import Tomato64.Rc.RcheckJumps

/-!
# The radio over many runs of `rcheck`

A run issues a `radio` command only when a rule about the wireless enters or
leaves its schedule.  The rules that stay in force have no say in it.
-/

namespace Tomato64.Restrict

open Text Tomato64.Run

variable (settings : Settings)

/-- An enabled rule about the wireless. -/
def Settings.HasRadio (nrule : ℕ) (rule : Rule) : Prop :=
  settings.Has nrule rule ∧ rule.wireless = true

/-- A rule about the wireless, with what the clock says of it and its bit in
the mask. -/
def Settings.Meets (clock : Clock) (before : BitVec 64)
    (insch bit : Bool) (nrule : ℕ) : Prop :=
  ∃ rule, settings.HasRadio nrule rule ∧ clock.insch rule = some insch ∧
    before.getLsbD nrule = bit

section
variable {settings : Settings} {clock : Clock} {before : BitVec 64}

theorem Settings.Meets.insch_eq {insch bit : Bool} {nrule : ℕ} {rule : Rule}
    (hmeets : settings.Meets clock before insch bit nrule)
    (hhas : settings.Has nrule rule) :
    rule.wireless = true ∧ clock.insch rule = some insch ∧
      before.getLsbD nrule = bit := by
  obtain ⟨other, ⟨hother, hwireless⟩, hinsch, hbit⟩ := hmeets
  obtain rfl := Option.some.inj (hother.2.symm.trans hhas.2)
  exact ⟨hwireless, hinsch, hbit⟩

end

/-! ## The variable of the loop -/

/-- What the first rules make of the variable `radio`: a rule that enters its
schedule turns the radio off for good, a rule that leaves it turns it on. -/
def Heard (entering leaving : ℕ → Prop) (count : ℕ) (radio : ℤ) : Prop :=
  (radio = 0 ∧ ∃ nrule < count, entering nrule) ∨
    (radio = 1 ∧ (∀ nrule < count, ¬ entering nrule) ∧
      ∃ nrule < count, leaving nrule) ∨
    (radio = -1 ∧ ∀ nrule < count, ¬ entering nrule ∧ ¬ leaving nrule)

section
variable {entering leaving : ℕ → Prop} {count : ℕ} {radio : ℤ}

variable (hheard : Heard entering leaving count radio)
include hheard

theorem Heard.ne_minus_two : radio ≠ -2 := by
  rcases hheard with ⟨hradio, -⟩ | ⟨hradio, -⟩ | ⟨hradio, -⟩ <;> omega

theorem Heard.skip (henter : ¬ entering count) (hleave : ¬ leaving count) :
    Heard entering leaving (count + 1) radio := by
  rw [Heard]
  simp only [Nat.exists_lt_succ_right, Nat.forall_lt_succ_right]
  rcases hheard with ⟨hradio, henters⟩ | ⟨hradio, hnone, hleaves⟩ |
    ⟨hradio, hnone⟩
  · exact .inl ⟨hradio, .inl henters⟩
  · exact .inr (.inl ⟨hradio, ⟨hnone, henter⟩, .inl hleaves⟩)
  · exact .inr (.inr ⟨hradio, hnone, henter, hleave⟩)

theorem Heard.enter (henter : entering count) :
    Heard entering leaving (count + 1)
      (if radio ≠ 0 ∧ radio ≠ -2 then 0 else radio) := by
  have hne := hheard.ne_minus_two
  left
  refine ⟨?_, count, count.lt_succ_self, henter⟩
  split_ifs with hradio
  · rfl
  · by_contra hzero
    exact hradio ⟨hzero, hne⟩

theorem Heard.leave (henter : ¬ entering count) (hleave : leaving count) :
    Heard entering leaving (count + 1)
      (if radio ≠ 0 ∧ radio ≠ -2 then 1 else radio) := by
  rw [Heard]
  simp only [Nat.exists_lt_succ_right, Nat.forall_lt_succ_right]
  rcases hheard with ⟨rfl, henters⟩ | ⟨rfl, hnone, -⟩ | ⟨rfl, hnone⟩
  · exact .inl ⟨rfl, .inl henters⟩
  · exact .inr (.inl ⟨rfl, ⟨hnone, henter⟩, .inr hleave⟩)
  · exact .inr (.inl ⟨rfl, ⟨fun nrule hlt => (hnone nrule hlt).1, henter⟩,
      .inr hleave⟩)

end

/-! ## A whole run -/

section
variable {settings : Settings} {run : Run} {state : State} {pass : Pass}

theorem switch_other {nrule : ℕ} (hlow : nrule ≤ 30)
    (rule : Rule) (insch : Bool) {index : ℕ} (hindex : index ≠ nrule) :
    (pass.switch run nrule rule insch).activated.getLsbD index =
      pass.activated.getLsbD index := by
  simp only [Pass.switch]
  by_cases hwireless : rule.wireless = true
  · rw [if_pos hwireless, getLsbD_record hlow, if_neg hindex]
  · rw [if_neg hwireless]
    split_ifs
    · rw [getLsbD_record hlow, if_neg hindex]
    · rfl

/-- The state of the loop: what the first rules made of the bits of the rules
about the wireless and of the variable `radio`. -/
structure Loop (settings : Settings) (clock : Clock) (before : BitVec 64)
    (count : ℕ) (pass : Pass) : Prop where
  rest : ∀ nrule, count ≤ nrule →
    pass.activated.getLsbD nrule = before.getLsbD nrule
  done : ∀ nrule < count, ∀ rule, settings.HasRadio nrule rule →
    pass.activated.getLsbD nrule = settings.target clock before nrule
  heard : Heard (settings.Meets clock before true false)
    (settings.Meets clock before false true) count pass.radio

variable {before : BitVec 64} {clock : Clock}

theorem Loop.target_eq {count : ℕ}
    (hloop : Loop settings clock before count pass) :
    settings.target clock pass.activated count =
      settings.target clock before count := by
  simp only [Settings.target, hloop.rest count le_rfl]

/-- A rule whose bit is as it should be does not change the radio. -/
theorem Loop.skip {count : ℕ}
    {next : Pass} (hloop : Loop settings clock before count pass)
    (htarget : settings.target clock before count = before.getLsbD count)
    (hagrees : next.Agrees pass) :
    Loop settings clock before (count + 1) next where
  rest nrule hnrule := by
    rw [hagrees.activated]
    exact hloop.rest nrule (Nat.le_of_succ_le hnrule)
  done nrule hnrule rule hhas := by
    rw [hagrees.activated]
    rcases Nat.lt_succ_iff_lt_or_eq.mp hnrule with hless | rfl
    · exact hloop.done nrule hless rule hhas
    · rw [htarget, hloop.rest nrule le_rfl]
  heard := by
    have hkept (insch : Bool) :
        ¬ settings.Meets clock before insch (!insch) count := by
      rintro ⟨rule, ⟨hhas, -⟩, hinsch, hbit⟩
      rw [Settings.target_of_insch hhas hinsch, hbit] at htarget
      cases insch <;> exact Bool.noConfusion htarget
    rw [hagrees.radio]
    exact hloop.heard.skip (hkept true) (hkept false)

theorem switch_radio_of_not_wireless {nrule : ℕ} {rule : Rule}
    (hwireless : rule.wireless = false) (insch : Bool) :
    (pass.switch run nrule rule insch).radio = pass.radio := by
  rw [Pass.switch, hwireless]
  simp only [Bool.false_eq_true, if_false]
  split_ifs <;> rfl

/-- A rule that is switched turns the radio off when it enters its schedule and
on when it leaves it, if it is about the wireless. -/
theorem Loop.switch {count : ℕ} (hloop : Loop settings clock before count pass)
    (hlow : count ≤ 30) {rule : Rule} {insch : Bool}
    (hhas : settings.Has count rule) (hinsch : clock.insch rule = some insch)
    (hbit : pass.activated.getLsbD count = !insch) :
    Loop settings clock before (count + 1)
      (pass.switch run count rule insch) where
  rest nrule hnrule := by
    rw [switch_other hlow rule insch (Nat.lt_of_succ_le hnrule).ne']
    exact hloop.rest nrule (Nat.le_of_succ_le hnrule)
  done nrule hnrule other hother := by
    rcases Nat.lt_succ_iff_lt_or_eq.mp hnrule with hless | rfl
    · rw [switch_other hlow rule insch hless.ne]
      exact hloop.done nrule hless other hother
    · obtain rfl := Option.some.inj (hhas.2.symm.trans hother.1.2)
      rw [Settings.target_of_insch hhas hinsch, Pass.switch, if_pos hother.2,
        getLsbD_record hlow, if_pos rfl]
  heard := by
    have hbefore : before.getLsbD count = !insch := by
      rw [← hloop.rest count le_rfl, hbit]
    cases hwireless : rule.wireless with
    | false =>
      rw [switch_radio_of_not_wireless hwireless]
      have hnone (insch bit : Bool) :
          ¬ settings.Meets clock before insch bit count := by
        intro hmeets
        rw [(hmeets.insch_eq hhas).1] at hwireless
        exact Bool.noConfusion hwireless
      exact hloop.heard.skip (hnone true false) (hnone false true)
    | true =>
      have hmeets : settings.Meets clock before insch (!insch) count :=
        ⟨rule, ⟨hhas, hwireless⟩, hinsch, hbefore⟩
      rw [Pass.switch, if_pos hwireless]
      cases insch with
      | true => exact hloop.heard.enter hmeets
      | false =>
        refine hloop.heard.leave (fun henter => ?_) hmeets
        have hfalse := (henter.insch_eq hhas).2.2
        rw [hbefore] at hfalse
        exact Bool.noConfusion hfalse

theorem loop_radio (hradio : settings.radioOn = true) (hlow : settings.Low)
    (run : Run) (state : State) :
    Loop settings run.clock state.activated maxNrules
      (settings.loop run state) := by
  refine foldl_range_induction (checkRule settings run) maxNrules
    (Loop settings run.clock state.activated) ?_ ?_
  · refine ⟨fun _ _ => rfl, fun _ hnrule => absurd hnrule (Nat.not_lt_zero _), ?_⟩
    rw [Settings.start, hradio]
    exact .inr (.inr ⟨rfl, fun _ hnrule => absurd hnrule (Nat.not_lt_zero _)⟩)
  intro count pass hcount hloop
  rcases checkRule_effect hlow run pass hcount with ⟨htarget, hagrees⟩ |
    ⟨rule, insch, counted, hhas, hinsch, hbit, hagrees, heq⟩
  · rw [hloop.target_eq, hloop.rest count le_rfl] at htarget
    exact hloop.skip htarget hagrees
  rw [heq]
  have hcounted : Loop settings run.clock state.activated count counted := by
    refine ⟨?_, ?_, ?_⟩
    · exact hagrees.activated ▸ hloop.rest
    · exact hagrees.activated ▸ hloop.done
    · exact hagrees.radio ▸ hloop.heard
  rw [← hagrees.activated] at hbit
  exact hcounted.switch (hlow count rule hhas) hhas hinsch hbit

end

/-! ## Run after run -/

/-- Whether a rule is in schedule, as far as the clock can tell: before the
clock is set, only the rules that always are. -/
def Rule.InSchedule (rule : Rule) (clock : Clock) : Prop :=
  if clock.time < y2k then rule.always = true
  else rule.Covers clock.wday clock.nowMins

theorem insch_eq_some_true_iff (rule : Rule) (clock : Clock) :
    clock.insch rule = some true ↔ rule.InSchedule clock := by
  rw [Clock.insch, Rule.InSchedule]
  by_cases hclock : clock.time < y2k
  · cases halways : rule.always <;> simp [hclock]
  · simp only [hclock, if_false, Option.some.injEq]
    exact inSched_iff rule clock.wday clock.nowMins

/-- The last `radio` command leaves the radio off exactly when a rule about the
wireless is in schedule. -/
def Follows (clock : Clock) (state : State) : Prop :=
  state.radio = some false ↔
    ∃ nrule rule, settings.HasRadio nrule rule ∧ rule.InSchedule clock

/-- The radio is off exactly when the mask has a rule about the wireless. -/
def Settled (state : State) : Prop :=
  state.radio = some false ↔ ∃ nrule rule, settings.HasRadio nrule rule ∧
    state.activated.getLsbD nrule = true

/-- When rules about the wireless leave their schedules, none that is in force
stays behind alone: either none stays or another one enters.  A run without a
clock finds no rule in force that has hours. -/
structure Calm (settings : Settings) (state : State) (run : Run) : Prop where
  leaves : ∀ leaving staying,
    settings.Meets run.clock state.activated false true leaving →
    settings.Meets run.clock state.activated true true staying →
    ∃ entering, settings.Meets run.clock state.activated true false entering
  clock : run.clock.time < y2k → ∀ nrule rule, settings.HasRadio nrule rule →
    state.activated.getLsbD nrule = true → rule.always = true

section
variable {settings : Settings} {state : State} {run : Run}

theorem Calm.bit_eq_false (hcalm : Calm settings state run) {nrule : ℕ}
    {rule : Rule} (hhas : settings.HasRadio nrule rule)
    (hinsch : run.clock.insch rule = none) :
    state.activated.getLsbD nrule = false := by
  rw [Clock.insch] at hinsch
  split_ifs at hinsch with hclock halways
  by_contra hbit
  exact halways (hcalm.clock hclock nrule rule hhas (Bool.not_eq_false _ ▸ hbit))

variable (hradio : settings.radioOn = true) (hlow : settings.Low)
  (hcalm : Calm settings state run)
include hradio hlow hcalm

/-- After a run the bits of the rules about the wireless say which are in
schedule. -/
theorem bit_rcheckMain_iff {nrule : ℕ} {rule : Rule}
    (hhas : settings.HasRadio nrule rule) :
    (rcheckMain settings state run).activated.getLsbD nrule = true ↔
      rule.InSchedule run.clock := by
  have hdone := (loop_radio hradio hlow run state).done nrule hhas.1.1 rule hhas
  change (settings.loop run state).activated.getLsbD nrule = true ↔ _
  rw [hdone, ← insch_eq_some_true_iff, Settings.target, hhas.1.2]
  cases hinsch : run.clock.insch rule with
  | none => simp [hinsch, hcalm.bit_eq_false hhas hinsch]
  | some insch => simp [hinsch]

theorem rcheckMain_follows (hsettled : Settled settings state) :
    Follows settings run.clock (rcheckMain settings state run) := by
  have hmeets {nrule : ℕ} {rule : Rule} (hhas : settings.HasRadio nrule rule)
      (hdue : rule.InSchedule run.clock) :
      settings.Meets run.clock state.activated true
        (state.activated.getLsbD nrule) nrule :=
    ⟨rule, hhas, (insch_eq_some_true_iff rule run.clock).mpr hdue, rfl⟩
  rw [Follows, rcheckMain]
  rcases (loop_radio hradio hlow run state).heard with
    ⟨hvalue, nrule, -, rule, hhas, hinsch, -⟩ |
    ⟨hvalue, hnone, leaving, -, hleaving⟩ | ⟨hvalue, hnone⟩
  · simp only [hvalue]
    exact ⟨fun _ => ⟨nrule, rule, hhas,
      (insch_eq_some_true_iff rule run.clock).mp hinsch⟩, fun _ => rfl⟩
  · simp only [hvalue]
    constructor
    · intro hfalse
      rw [if_pos (by decide)] at hfalse
      exact absurd hfalse (by decide)
    rintro ⟨nrule, rule, hhas, hdue⟩
    have hstay := hmeets hhas hdue
    cases hbit : state.activated.getLsbD nrule with
    | false =>
      rw [hbit] at hstay
      exact absurd hstay (hnone nrule hhas.1.1)
    | true =>
      rw [hbit] at hstay
      obtain ⟨entering, henters⟩ := hcalm.leaves leaving nrule hleaving hstay
      have hentering := henters
      obtain ⟨other, hother, -⟩ := henters
      exact absurd hentering (hnone entering hother.1.1)
  · simp only [hvalue]
    rw [if_neg (by decide)]
    refine Iff.trans hsettled ?_
    constructor
    · rintro ⟨nrule, rule, hhas, hbit⟩
      refine ⟨nrule, rule, hhas, ?_⟩
      rw [← insch_eq_some_true_iff]
      cases hinsch : run.clock.insch rule with
      | none =>
        rw [hcalm.bit_eq_false hhas hinsch] at hbit
        exact Bool.noConfusion hbit
      | some insch =>
        cases insch with
        | true => rfl
        | false =>
          exact absurd ⟨rule, hhas, hinsch, hbit⟩ (hnone nrule hhas.1.1).2
    · rintro ⟨nrule, rule, hhas, hdue⟩
      refine ⟨nrule, rule, hhas, ?_⟩
      have hstay := hmeets hhas hdue
      cases hbit : state.activated.getLsbD nrule with
      | false =>
        rw [hbit] at hstay
        exact absurd hstay (hnone nrule hhas.1.1).1
      | true => rfl

theorem rcheckMain_settled (hsettled : Settled settings state) :
    Settled settings (rcheckMain settings state run) := by
  refine (rcheckMain_follows hradio hlow hcalm hsettled).trans ?_
  exact exists₂_congr fun nrule rule => and_congr_right fun hhas =>
    (bit_rcheckMain_iff hradio hlow hcalm hhas).symm

end

theorem settled_built : Settled settings State.built := by
  simp [Settled, State.built]

/-- In a run of `rcheck` after `rcheck` in which every one is calm, the radio
follows the schedules after each of them. -/
theorem rcheck_radio_follows (settings : Settings) (front back : List Run)
    (run : Run) (hradio : settings.radioOn = true) (hlow : settings.Low)
    (hcalm : Along (rcheckMain settings) (Calm settings) State.built
      (front ++ run :: back)) :
    Follows settings run.clock
      ((front ++ [run]).foldl (rcheckMain settings) State.built) := by
  obtain ⟨hfront, hrun, -⟩ := along_append.mp hcalm
  have hsettled : Settled settings
      (front.foldl (rcheckMain settings) State.built) :=
    invariant_of_along
      (fun _ _ hstate hstep => rcheckMain_settled hradio hlow hstep hstate)
      (settled_built settings) hfront
  rw [List.foldl_append]
  exact rcheckMain_follows hradio hlow hrun hsettled

/-! ## Overlapping rules -/

/-- A rule on its own leaves no other one behind. -/
theorem calm_single (number : ℕ) (text : Bytes) (state : State) {run : Run}
    (hclock : y2k ≤ run.clock.time) :
    Calm (Settings.single number text) state run where
  leaves := by
    rintro leaving staying ⟨left, ⟨hleft, -⟩, hout, -⟩
      ⟨right, ⟨hright, -⟩, hin, -⟩
    have hleave := (Settings.has_single hleft).2
    have hstay := (Settings.has_single hright).2
    rw [Option.some.inj (hleave.symm.trans hstay), hin] at hout
    exact Bool.noConfusion (Option.some.inj hout)
  clock hless := absurd hless hclock.not_gt

theorem rcheck_radio_follows_noon :
    Follows (Settings.single 0 (bytes "1|0|720|127|~|||0|Night"))
      (atHour 13).clock
      (([atHour 7] ++ [atHour 13]).foldl
        (rcheckMain (Settings.single 0 (bytes "1|0|720|127|~|||0|Night")))
        State.built) :=
  rcheck_radio_follows _ [atHour 7] [] (atHour 13) rfl
    (Settings.low_single _ (by decide))
    ⟨calm_single _ _ _ (by decide), calm_single _ _ _ (by decide), trivial⟩

/-- The radio is disabled from 00:00 to 12:00 and from 06:00 to 18:00. -/
def overlapping : Settings where
  rrule nrule :=
    if nrule = 0 then some (bytes "1|0|720|127|~|||0|Night")
    else if nrule = 1 then some (bytes "1|360|1080|127|~|||0|Work")
    else none
  radioOn := true

theorem overlapping_low : overlapping.Low := by
  rintro nrule rule ⟨-, hrule⟩
  by_contra hhigh
  have hzero : nrule ≠ 0 := by omega
  have hone : nrule ≠ 1 := by omega
  rw [Settings.rule] at hrule
  simp [overlapping, hzero, hone] at hrule

/-- At 13:00 the first rule turns the radio on although the second one is in
schedule. -/
theorem rcheck_radio_overlapping :
    overlapping.radioOn = true ∧ overlapping.Low ∧
      ¬ Follows overlapping (atHour 13).clock
        ([atHour 7, atHour 13].foldl (rcheckMain overlapping)
          State.built) := by
  refine ⟨rfl, overlapping_low, fun hfollows => ?_⟩
  have hdue : (⟨360, 1080, 127#32, 126⟩ : Rule).InSchedule
      (atHour 13).clock := by
    rw [← insch_eq_some_true_iff]
    decide
  have hoff := hfollows.mpr
    ⟨1, ⟨360, 1080, 127#32, 126⟩, ⟨⟨by decide, by decide⟩, rfl⟩, hdue⟩
  exact absurd hoff (by decide)

end Tomato64.Restrict
