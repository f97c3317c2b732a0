import Mathlib.Logic.Function.Basic
import Tomato64.Rc.Mwan

/-!
# The monitor of the WANs

`mwan_route_main` looks at the WANs every 15 seconds.  When their status has
changed, it installs or withdraws the policy of each WAN that came up or went
down, sets the default route, and remembers the status.  `mwan_load_balance`
looks at the WANs once more in between, and it is this second status that is
remembered.
-/

namespace Tomato64.Mwan

open List Run Text

/-- The preferences of the rules: 10, 11 or 12 with the number of the WAN. -/
inductive Pref where
  | gateway
  | dns
  | mark
deriving DecidableEq

/-- A rule of `ip rule` that selects the table of a WAN. -/
structure IpRule where
  pref : Pref
  table : ℕ
  selector : Bytes
deriving DecidableEq

def IpRule.isAt (pref : Pref) (table : ℕ) (rule : IpRule) : Bool :=
  rule.pref = pref && rule.table = table

/-- `ip rule add`, which refuses a rule that exists. -/
def ruleAdd (rule : IpRule) (rules : List IpRule) : List IpRule :=
  if rule ∈ rules then rules else rules ++ [rule]

/-- `ip rule del table pref`, which deletes the first such rule. -/
def ruleDel (pref : Pref) (table : ℕ) (rules : List IpRule) : List IpRule :=
  rules.eraseP (IpRule.isAt pref table)

/-- What the calls of `check_wanup` in a round of the monitor return, and the
data of the WANs.  The calls are those of the two status updates, the one for
the next hops and the one in `mwan_table_add`. -/
structure Round where
  first : ℕ → Bool
  second : ℕ → Bool
  third : ℕ → Bool
  adding : ℕ → Bool
  info : ℕ → WanInfo
  ipaddr : ℕ → Bytes
  dns : ℕ → List Bytes

variable (round : Round) (unit : ℕ)

def gatewayRule : IpRule :=
  ⟨.gateway, unit, bytes "from " ++ round.ipaddr unit⟩

def dnsRule (server : Bytes) : IpRule :=
  ⟨.dns, unit, bytes "to " ++ server⟩

def markRule : IpRule :=
  ⟨.mark, unit, bytes "fwmark 0x" ++ decimal unit ++ bytes "00/0xf00"⟩

variable (rules : List IpRule)

/-- `mwan_table_del`. -/
def tableDel : List IpRule :=
  let rules := ruleDel .gateway unit rules
  let rules :=
    (round.dns unit).foldl (fun rules _ => ruleDel .dns unit rules) rules
  ruleDel .mark unit rules

def tableAdd : List IpRule :=
  let rules := tableDel round unit rules
  if round.adding unit then
    let rules := ruleAdd (gatewayRule round unit) rules
    let rules := (round.dns unit).foldl
      (fun rules server => ruleAdd (dnsRule unit server) rules) rules
    ruleAdd (markRule unit) rules
  else rules

/-- The rules, and the chains `WAN_1`, `WAN_2` and so on: whether each sets its
mark, if it exists. -/
structure Policy where
  rules : List IpRule
  chains : ℕ → Option Bool

/-- `mwan_pbr_update`, which does nothing without a chain. -/
def pbrUpdate (up : Bool) (chains : ℕ → Option Bool) : ℕ → Option Bool :=
  Function.update chains unit ((chains unit).map fun _ => up)

/-- The round of the loop over the WANs in `mwan_route_main`. -/
def policyUpdate (last curr : ℕ → Status) (policy : Policy)
    (unit : ℕ) : Policy :=
  if decide (last unit ≠ .down) = decide (curr unit ≠ .down) then policy
  else if curr unit ≠ .down then
    ⟨tableAdd round unit policy.rules, pbrUpdate unit true policy.chains⟩
  else
    ⟨tableDel round unit policy.rules, pbrUpdate unit false policy.chains⟩

/-! ## The loop -/

/-- `mwan_last`, what has been installed, and the default route. -/
structure State where
  last : ℕ → Status
  policy : Policy
  route : List Hop

variable (num : ℕ) (state : State)

/-- The round of the loop of `mwan_route_main`. -/
def watch (round : Round) : State :=
  let curr := statusUpdate num round.first round.info
  if (units num).any fun unit => state.last unit ≠ curr unit then
    { last := statusUpdate num round.second round.info
      policy :=
        (units num).foldl (policyUpdate round state.last curr) state.policy
      route :=
        ((loadBalance num round.second round.third round.info).map
          Balance.hops).getD state.route }
  else { state with last := curr }

/-- No policy is installed; the firewall has made the chains. -/
def State.start : State :=
  ⟨fun _ => .down, ⟨[], fun _ => some false⟩, []⟩

/-! ## The part of a WAN -/

/-- What belongs to one WAN: its rules for the address and the mark, and its
chain. -/
structure Part where
  gateway : List IpRule
  mark : List IpRule
  chain : Option Bool
deriving DecidableEq

def rulesAt (pref : Pref) (unit : ℕ) (rules : List IpRule) : List IpRule :=
  rules.filter (IpRule.isAt pref unit)

def Policy.part (policy : Policy) : Part :=
  ⟨rulesAt .gateway unit policy.rules, rulesAt .mark unit policy.rules,
    policy.chains unit⟩

/-- The table is selected by one rule for the address and one for the mark, and
the chain sets the mark. -/
def Part.Installed (part : Part) : Prop :=
  part.gateway.length = 1 ∧ part.mark.length = 1 ∧ part.chain = some true

/-- There are no such rules, and the chain is empty. -/
def Part.Removed (part : Part) : Prop :=
  part.gateway = [] ∧ part.mark = [] ∧ part.chain = some false

variable {part : Part}

theorem Part.Installed.not_removed (hinstalled : part.Installed) :
    ¬ part.Removed := by
  rintro ⟨hgateway, -, -⟩
  have hone := hinstalled.1
  rw [hgateway] at hone
  cases hone

theorem Part.Removed.not_installed (hremoved : part.Removed) :
    ¬ part.Installed :=
  fun hinstalled => hinstalled.not_removed hremoved

section
variable {pref other : Pref} {unit table : ℕ} {rules : List IpRule}

theorem rulesAt_ruleDel :
    rulesAt pref unit (ruleDel other table rules) =
      if pref = other ∧ unit = table then (rulesAt pref unit rules).tail
      else rulesAt pref unit rules := by
  rw [rulesAt, ruleDel, rulesAt]
  induction rules with
  | nil => simp
  | cons rule rules ih =>
    cases hrule : IpRule.isAt other table rule with
    | true =>
      simp only [IpRule.isAt, Bool.and_eq_true, decide_eq_true_eq] at hrule
      obtain ⟨rfl, rfl⟩ := hrule
      by_cases hsame : pref = rule.pref ∧ unit = rule.table
      · obtain ⟨rfl, rfl⟩ := hsame
        simp [IpRule.isAt]
      have hout : ¬ IpRule.isAt pref unit rule = true := by
        simp only [IpRule.isAt, Bool.and_eq_true, decide_eq_true_eq]
        exact fun hin => hsame ⟨hin.1.symm, hin.2.symm⟩
      rw [eraseP_cons_of_pos (by simp [IpRule.isAt]),
        filter_cons_of_neg hout, if_neg hsame]
    | false =>
      rw [eraseP_cons_of_neg (by simp [hrule]), filter_cons, filter_cons, ih]
      split_ifs with hin hsame
      · rw [hsame.1, hsame.2, hrule] at hin
        cases hin
      · rfl
      · rfl
      · rfl

theorem rulesAt_ruleAdd (rule : IpRule) :
    rulesAt pref unit (ruleAdd rule rules) =
      if IpRule.isAt pref unit rule then ruleAdd rule (rulesAt pref unit rules)
      else rulesAt pref unit rules := by
  rw [ruleAdd, ruleAdd]
  cases hrule : IpRule.isAt pref unit rule <;>
    by_cases hmem : rule ∈ rules <;> simp [rulesAt, hrule, hmem]

/-- The rules for DNS servers are not those for the address and the mark. -/
theorem rulesAt_foldl {Value : Type} {step : List IpRule → Value → List IpRule}
    (hstep : ∀ rules value,
      rulesAt pref unit (step rules value) = rulesAt pref unit rules)
    (values : List Value) (rules : List IpRule) :
    rulesAt pref unit (values.foldl step rules) = rulesAt pref unit rules := by
  induction values generalizing rules with
  | nil => rfl
  | cons value values ih => rw [foldl_cons, ih, hstep]

end

/-! ## What the operations do to the parts -/

section
variable (round : Round) (unit : ℕ) (rules : List IpRule)

theorem rulesAt_tableDel {pref : Pref} (hpref : pref ≠ .dns) (other : ℕ) :
    rulesAt pref other (tableDel round unit rules) =
      if other = unit then (rulesAt pref other rules).tail
      else rulesAt pref other rules := by
  rw [tableDel, rulesAt_ruleDel, rulesAt_foldl, rulesAt_ruleDel]
  · cases pref <;> simp at hpref ⊢
  · intro rules server
    rw [rulesAt_ruleDel, if_neg fun hsame => hpref hsame.1]

/-- The rule that is added under a preference other than that for DNS. -/
def ownRule (round : Round) (unit : ℕ) : Pref → IpRule
  | .gateway => gatewayRule round unit
  | _ => markRule unit

theorem rulesAt_tableAdd {pref : Pref} (hpref : pref ≠ .dns) (other : ℕ) :
    rulesAt pref other (tableAdd round unit rules) =
      if other = unit then
        if round.adding unit then
          ruleAdd (ownRule round unit pref) (rulesAt pref other rules).tail
        else (rulesAt pref other rules).tail
      else rulesAt pref other rules := by
  rw [tableAdd]
  by_cases hup : round.adding unit = true
  · rw [if_pos hup, rulesAt_ruleAdd, rulesAt_foldl, rulesAt_ruleAdd,
      rulesAt_tableDel _ _ _ hpref]
    · rcases eq_or_ne other unit with rfl | hother <;> cases pref <;>
        simp [IpRule.isAt, gatewayRule, markRule, ownRule, *, Ne.symm] at hpref ⊢
    · intro rules server
      rw [rulesAt_ruleAdd, if_neg]
      simp [IpRule.isAt, dnsRule, hpref.symm]
  · simp only [if_neg hup, rulesAt_tableDel _ _ _ hpref]

end

/-- What `policyUpdate` does to the part of its WAN. -/
def Part.change (last curr : ℕ → Status) (unit : ℕ) (part : Part) : Part :=
  if decide (last unit ≠ .down) = decide (curr unit ≠ .down) then part
  else if curr unit ≠ .down then
    if round.adding unit then
      ⟨ruleAdd (gatewayRule round unit) part.gateway.tail,
        ruleAdd (markRule unit) part.mark.tail, part.chain.map fun _ => true⟩
    else ⟨part.gateway.tail, part.mark.tail, part.chain.map fun _ => true⟩
  else ⟨part.gateway.tail, part.mark.tail, part.chain.map fun _ => false⟩

section
variable (round : Round) (last curr : ℕ → Status) (policy : Policy) (unit : ℕ)

theorem part_policyUpdate :
    (policyUpdate round last curr policy unit).part unit =
      (policy.part unit).change round last curr unit := by
  rw [policyUpdate, Part.change]
  split_ifs with hsame hup hadding
  · rfl
  · simp [Policy.part, rulesAt_tableAdd, hadding, pbrUpdate, ownRule]
  · simp [Policy.part, rulesAt_tableAdd, hadding, pbrUpdate]
  · simp [Policy.part, rulesAt_tableDel, pbrUpdate]

theorem part_policyUpdate_of_ne {other : ℕ} (hne : other ≠ unit) :
    (policyUpdate round last curr policy unit).part other =
      policy.part other := by
  rw [policyUpdate]
  split_ifs
  · rfl
  · simp [Policy.part, rulesAt_tableAdd, hne, pbrUpdate]
  · simp [Policy.part, rulesAt_tableDel, hne, pbrUpdate]

end

theorem nodup_units : (units num).Nodup :=
  nodup_range.map fun _ _ heq => Nat.succ.inj heq

/-- The loop over the WANs changes the part of each of them once. -/
theorem part_foldl_policyUpdate (last curr : ℕ → Status)
    (policy : Policy) {num unit : ℕ} (hunit : unit ∈ units num) :
    ((units num).foldl (policyUpdate round last curr) policy).part unit =
      (policy.part unit).change round last curr unit :=
  foldl_parts (part_policyUpdate round last curr)
    (fun policy unit _ hne =>
      part_policyUpdate_of_ne round last curr policy unit hne)
    (nodup_units num) policy hunit

/-! ## What is remembered and what is installed -/

/-- The policy of a WAN is in place, or nothing of it, as a status says. -/
def Part.Fits (part : Part) (status : Status) : Prop :=
  (part.Installed ↔ status ≠ .down) ∧ (part.Removed ↔ status = .down)

/-- What is remembered of every WAN fits what is installed for it. -/
def Consistent : Prop :=
  ∀ unit ∈ units num, (state.policy.part unit).Fits (state.last unit)

/-- A round that sees a change finds every WAN in the same state in both status
updates, and one that came up still up when its table is added. -/
def Calm (round : Round) : Prop :=
  (∃ unit ∈ units num,
    state.last unit ≠ statusUpdate num round.first round.info unit) →
    ∀ unit ∈ units num, round.second unit = round.first unit ∧
      (state.last unit = .down → round.first unit = true →
        round.adding unit = true)

theorem Part.fits_iff {status : Status} :
    part.Fits status ↔
      (status ≠ .down ∧ part.Installed) ∨ (status = .down ∧ part.Removed) := by
  constructor
  · rintro ⟨hinstalled, hremoved⟩
    by_cases hdown : status = .down
    · exact .inr ⟨hdown, hremoved.mpr hdown⟩
    · exact .inl ⟨hdown, hinstalled.mpr hdown⟩
  · rintro (⟨hup, hinstalled⟩ | ⟨hdown, hremoved⟩)
    · exact ⟨iff_of_true hinstalled hup,
        iff_of_false hinstalled.not_removed hup⟩
    · exact ⟨iff_of_false hremoved.not_installed (not_not.mpr hdown),
        iff_of_true hremoved hdown⟩

/-! ## A round -/

section
variable {num : ℕ} {round : Round} {state : State} {unit : ℕ}

theorem Part.fits_change {last curr : ℕ → Status}
    {status : Status} (hfits : part.Fits (last unit)) :
    (part.change round last curr unit).Fits status ↔
      (status = .down ↔ curr unit = .down) ∧
        (last unit = .down → curr unit ≠ .down → round.adding unit = true) := by
  rw [Part.fits_iff] at hfits ⊢
  rw [Part.change]
  rcases hfits with ⟨hlast, hinstalled⟩ | ⟨hlast, hremoved⟩
  · by_cases hcurr : curr unit = .down
    swap
    · have hnot := hinstalled.not_removed
      simp [hlast, hcurr, hinstalled, hnot]
    -- The WAN went down.
    have hremoved : Part.Removed ⟨part.gateway.tail, part.mark.tail,
        part.chain.map fun _ => false⟩ := by
      obtain ⟨hgateway, hmark, hchain⟩ := hinstalled
      refine ⟨?_, ?_, ?_⟩
      · exact eq_nil_of_length_eq_zero (by simp [hgateway])
      · exact eq_nil_of_length_eq_zero (by simp [hmark])
      · simp [hchain]
    have hnot := hremoved.not_installed
    simp [hlast, hcurr, hremoved, hnot]
  · by_cases hcurr : curr unit = .down
    · have hnot := hremoved.not_installed
      simp [hlast, hcurr, hremoved, hnot]
    -- The WAN came up.
    obtain ⟨hgateway, hmark, hchain⟩ := hremoved
    cases hadding : round.adding unit with
    | true =>
      simp [hlast, hcurr, hgateway, hmark, hchain, ruleAdd,
        Part.Installed, Part.Removed]
    | false =>
      simp [hlast, hcurr, hgateway, hmark, hchain, Part.Installed, Part.Removed]

/-- A round keeps what is remembered consistent exactly when it is calm. -/
theorem consistent_watch_iff (hnum : 1 < num) (hstate : Consistent num state) :
    Consistent num (watch num state round) ↔ Calm num state round := by
  rw [watch]
  have hany : ((units num).any fun unit =>
      state.last unit ≠ statusUpdate num round.first round.info unit) = true ↔
      ∃ unit ∈ units num,
        state.last unit ≠ statusUpdate num round.first round.info unit := by
    simp only [any_eq_true, decide_eq_true_eq]
  by_cases hchange : ∃ unit ∈ units num,
      state.last unit ≠ statusUpdate num round.first round.info unit
  · rw [if_pos (hany.mpr hchange), Calm, forall_prop_of_true hchange]
    refine forall₂_congr fun unit hunit => ?_
    rw [part_foldl_policyUpdate _ _ _ _ hunit,
      Part.fits_change (hstate unit hunit), Ne,
      statusUpdate_eq_down_iff hnum hunit, statusUpdate_eq_down_iff hnum hunit,
      Bool.not_eq_false, ← Bool.coe_iff_coe]
    cases round.second unit <;> cases round.first unit <;> simp
  · rw [if_neg (hany.not.mpr hchange)]
    refine iff_of_true (fun unit hunit => ?_) fun h => absurd h hchange
    have hsame : state.last unit =
        statusUpdate num round.first round.info unit :=
      not_not.mp fun hne => hchange ⟨unit, hunit, hne⟩
    have hfits := hstate unit hunit
    rw [hsame] at hfits
    exact hfits

end

theorem consistent_start : Consistent num State.start :=
  fun _ _ => Part.fits_iff.mpr (.inr ⟨rfl, rfl, rfl, rfl⟩)

/-- What the monitor remembers fits what it has installed after every round of
a run exactly when all rounds of the run are calm. -/
theorem watch_consistent_iff (num : ℕ) (hnum : 1 < num)
    (rounds : List Round) :
    (∀ front, front <+: rounds →
      Consistent num (front.foldl (watch num) State.start)) ↔
      Along (watch num) (Calm num) State.start rounds :=
  (along_iff_invariant (fun _ _ => consistent_watch_iff hnum)
    (consistent_start num)).symm

/-- A round in which the first status update and the second one see different
WANs up, the second one to the end of the round. -/
def Round.seeing (first second : ℕ → Bool) : Round :=
  ⟨first, second, second, second, threeWans, fun unit =>
    bytes "10.0.1." ++ decimal unit, fun _ => [bytes "9.9.9.9"]⟩

theorem watch_consistent_iff_steady :
    Consistent 3 ([Round.seeing (fun _ => true) (fun _ => true),
      Round.seeing (· = 3) (· = 3)].foldl (watch 3) State.start) := by
  refine (watch_consistent_iff 3 (by decide) _).mpr ?_ _ prefix_rfl
  exact ⟨fun _ _ _ => ⟨rfl, fun _ hup => hup⟩,
    fun _ _ _ => ⟨rfl, fun _ hup => hup⟩, trivial⟩

/-- The second WAN comes up between the two status updates of a round and stays
up. -/
def race : List Round :=
  [Round.seeing (· = 1) fun unit => unit = 1 || unit = 2,
    Round.seeing (fun unit => unit = 1 || unit = 2)
      fun unit => unit = 1 || unit = 2]

/-- It is remembered as routing, and the next round sees no change, but its
policy is not installed. -/
theorem watch_not_consistent_race :
    (race.foldl (watch 2) State.start).last 2 = .routing ∧
      ((race.foldl (watch 2) State.start).policy.part 2).Removed ∧
      ¬ Consistent 2 (race.foldl (watch 2) State.start) := by
  have hlast : (race.foldl (watch 2) State.start).last 2 = .routing := by
    decide
  have hremoved :
      ((race.foldl (watch 2) State.start).policy.part 2).Removed := by
    unfold Part.Removed
    decide
  refine ⟨hlast, hremoved, fun hconsistent => ?_⟩
  have hfits := hconsistent 2 (mem_units.mpr (by decide))
  rw [hfits.2, hlast] at hremoved
  cases hremoved

/-! ## Calls in any order -/

theorem rulesAt_tableDel_dns :
    rulesAt .dns unit (tableDel round unit rules) =
      (rulesAt .dns unit rules).drop (round.dns unit).length := by
  have hservers (servers : List Bytes) (rules : List IpRule) :
      rulesAt .dns unit
          (servers.foldl (fun rules _ => ruleDel .dns unit rules) rules) =
        (rulesAt .dns unit rules).drop servers.length := by
    induction servers generalizing rules with
    | nil => rfl
    | cons server servers ih =>
      rw [foldl_cons, ih, rulesAt_ruleDel, if_pos ⟨rfl, rfl⟩, drop_tail,
        length_cons]
  rw [tableDel, rulesAt_ruleDel, if_neg (by simp), hservers, rulesAt_ruleDel,
    if_neg (by simp)]

/-- A call of `mwan_table_add`, with the number of WANs, or `mwan_table_del`. -/
inductive TableCall where
  | add (num : ℤ) (round : Round) (unit : ℕ)
  | del (round : Round) (unit : ℕ)

def callTable : TableCall → List IpRule
  | .add num round unit =>
    if num ≤ 1 then tableDel round unit rules else tableAdd round unit rules
  | .del round unit => tableDel round unit rules

/-- A deletion leaves no rule of the WAN. -/
def Clears : TableCall → Prop
  | .add _ _ _ => True
  | .del round unit =>
    ∀ pref, rulesAt pref unit (tableDel round unit rules) = []

/-- A deletion finds no more rules for DNS servers than there are servers. -/
def Covers : TableCall → Prop
  | .add _ _ _ => True
  | .del round unit =>
    (rulesAt .dns unit rules).length ≤ (round.dns unit).length

/-- No WAN has two rules for its address or for its mark. -/
def Single : Prop :=
  ∀ unit, (rulesAt .gateway unit rules).tail = [] ∧
    (rulesAt .mark unit rules).tail = []

theorem single_tableDel {rules : List IpRule} (hsingle : Single rules) :
    Single (tableDel round unit rules) := by
  intro other
  rw [rulesAt_tableDel _ _ _ (by decide), rulesAt_tableDel _ _ _ (by decide)]
  split
  · simp [hsingle other]
  · exact hsingle other

theorem single_tableAdd {rules : List IpRule} (hsingle : Single rules) :
    Single (tableAdd round unit rules) := by
  intro other
  rw [rulesAt_tableAdd _ _ _ (by decide), rulesAt_tableAdd _ _ _ (by decide)]
  split_ifs
  · simp [hsingle other, ruleAdd]
  · simp [hsingle other]
  · exact hsingle other

theorem single_callTable (call : TableCall)
    (hsingle : Single rules) : Single (callTable rules call) := by
  cases call with
  | del round unit => exact single_tableDel round unit hsingle
  | add num round unit =>
    rw [callTable]
    split
    · exact single_tableDel round unit hsingle
    · exact single_tableAdd round unit hsingle

theorem clears_iff_covers (call : TableCall)
    (hsingle : Single rules) : Clears rules call ↔ Covers rules call := by
  cases call with
  | add num round unit => exact Iff.rfl
  | del round unit =>
    rw [Covers, ← drop_eq_nil_iff, ← rulesAt_tableDel_dns]
    refine ⟨fun hclears => hclears .dns, fun hdns pref => ?_⟩
    cases pref with
    | gateway =>
      rw [rulesAt_tableDel _ _ _ (by decide), if_pos rfl, (hsingle unit).1]
    | dns => exact hdns
    | mark =>
      rw [rulesAt_tableDel _ _ _ (by decide), if_pos rfl, (hsingle unit).2]

/-- In a run each deletion leaves no rule of its WAN exactly if each one finds
at least as many DNS servers as there are rules for them. -/
theorem calls_clear_iff (calls : List TableCall) :
    Along callTable Clears [] calls ↔ Along callTable Covers [] calls :=
  along_congr (fun rules call hsingle _ => single_callTable rules call hsingle)
    clears_iff_covers fun _ => ⟨rfl, rfl⟩

/-- One of the two DNS servers of a WAN is gone when it goes down. -/
theorem calls_keep_dns :
    ¬ Along callTable Clears []
      [.add 2 { Round.seeing (fun _ => true) (fun _ => true) with
          dns := fun _ => [bytes "1.1.1.1", bytes "9.9.9.9"] } 1,
        .del (Round.seeing (fun _ => true) (fun _ => true)) 1] := by
  rintro ⟨-, hclears, -⟩
  exact absurd (hclears .dns) (by decide)

end Tomato64.Mwan
