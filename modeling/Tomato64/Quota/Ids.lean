import Mathlib.Data.List.Flatten
import Tomato64.Core.Split
import Tomato64.Quota.Rules

/-!
# The ids of the counters

The kernel keeps the counters of a family by their id and refuses a table that
uses an id twice.  A record brings its own id, and one without an id that can
be used falls back to its number.
-/

namespace Tomato64.QuotaRules

open Chains List Scan Split Text

def Line.counters (line : Line) : List Bytes :=
  line.rule.tests.filterMap Test.counter

/-- The ids of the caps of some rules. -/
def counterIds (rules : List QuotaRule) : List Bytes :=
  rules.flatMap fun rule => rule.kinds.map (counterId rule)

variable (rule : QuotaRule)

theorem filterMap_counter_skipTest :
    (skipTest rule).filterMap Test.counter = [] := by
  unfold skipTest
  split <;> rfl

variable (env : Env)

theorem counters_capLines (rule : QuotaRule) (kind : Kind) :
    (capLines env rule kind).flatMap Line.counters = [counterId rule kind] := by
  have hskip := filterMap_counter_skipTest rule
  unfold capLines quotaEmit
  split
  · simp [Line.counters, Test.counter, hskip]
  · simp [Line.counters, Test.counter, hskip, iptWrite, flatMap_assoc,
      flatMap_map, filterMap_cons]

theorem counters_flagLines : (flagLines rule).flatMap Line.counters = [] := by
  simp [flagLines, Line.counters, Test.counter, iptWrite, flatMap_assoc,
    filterMap_cons]

theorem counters_entryLines (mask : Mark) (faces : List Bytes) :
    (entryLines mask faces).flatMap Line.counters = [] := by
  simp [entryLines, faceLines, Line.counters, Test.counter, ip46tWrite,
    flatMap_assoc, filterMap_cons]

theorem counters_lines {env : Env} (hbuilds : builds env = true) :
    (iptQuotas env).lines.flatMap Line.counters = counterIds env.rules := by
  have hcaps : ∀ rule : QuotaRule,
      rule.kinds.flatMap (fun kind =>
        (capLines env rule kind).flatMap Line.counters) =
      rule.kinds.map (counterId rule) := by
    intro rule
    simp only [counters_capLines]
    exact flatMap_pure_eq_map _ _
  rw [iptQuotas, if_pos hbuilds]
  simp only [flatMap_append, flatMap_assoc, counters_entryLines,
    counters_flagLines, hcaps, counterIds]
  simp [enforcementLines, Line.counters, Test.counter, ip46tWrite,
    filterMap_cons]

theorem familyIds_ipv4 :
    familyIds env .ipv4 = (iptQuotas env).lines.flatMap Line.counters := by
  rw [familyIds, familyRules, flatMap_map]
  rfl

/-- The rules of IPv6 are among those of IPv4. -/
theorem familyIds_sublist (family : Family) :
    (familyIds env family).Sublist (familyIds env .ipv4) := by
  cases family with
  | ipv4 => exact .refl _
  | ipv6 =>
    unfold familyIds familyRules
    dsimp only
    split
    · exact (filter_sublist.map _).flatMap _
    · exact nil_sublist _

/-! ## When two rules share an id -/

theorem letter_injective : Function.Injective Kind.letter := by
  intro first second
  cases first <;> cases second <;> decide

theorem counterId_eq_iff {first second : QuotaRule} {kind other : Kind} :
    counterId first kind = counterId second other ↔
      first.idstr = second.idstr ∧ kind = other := by
  have hlength : ∀ kind : Kind, kind.letter.length = 1 := by
    intro kind
    cases kind <;> rfl
  constructor
  · intro hsame
    obtain ⟨hfront, hletter⟩ := append_inj' hsame (by rw [hlength, hlength])
    exact ⟨append_cancel_left (append_cancel_right hfront),
      letter_injective hletter⟩
  · rintro ⟨hid, rfl⟩
    rw [counterId, hid, counterId]

/-- The record brings an id that can be used. -/
def QuotaRule.named : Bool :=
  validId rule.record.ruleid

/-- Two rules have a cap of the same kind, and either the same id, or the id
of one is the number of the other, which has none. -/
def Clash (first second : QuotaRule) : Prop :=
  (∃ kind ∈ first.kinds, kind ∈ second.kinds) ∧
    ((first.named ∧ second.named ∧
        first.record.ruleid = second.record.ruleid) ∨
      (first.named ∧ ¬ second.named ∧
        first.record.ruleid = decimal second.idx) ∨
      (¬ first.named ∧ second.named ∧
        decimal first.idx = second.record.ruleid))

theorem clash_iff {first second : QuotaRule} (hidx : first.idx < second.idx) :
    Clash first second ↔ (∃ kind ∈ first.kinds, kind ∈ second.kinds) ∧
        first.idstr = second.idstr := by
  have hnumbers : decimal first.idx ≠ decimal second.idx :=
    fun hsame => hidx.ne (decimal_injective hsame)
  cases hfirst : validId first.record.ruleid <;>
    cases hsecond : validId second.record.ruleid <;>
    simp [Clash, QuotaRule.named, QuotaRule.idstr, hfirst, hsecond, hnumbers]

theorem disjoint_counterIds_iff {first second : QuotaRule} :
    (first.kinds.map (counterId first)).Disjoint
        (second.kinds.map (counterId second)) ↔
      ¬ ((∃ kind ∈ first.kinds, kind ∈ second.kinds) ∧
        first.idstr = second.idstr) := by
  constructor
  · rintro hdisjoint ⟨⟨kind, hfirst, hsecond⟩, hid⟩
    refine hdisjoint (mem_map_of_mem hfirst) ?_
    exact counterId_eq_iff.2 ⟨hid, rfl⟩ ▸ mem_map_of_mem hsecond
  intro hshare id hfirst hsecond
  obtain ⟨kind, hkind, rfl⟩ := mem_map.1 hfirst
  obtain ⟨other, hother, hsame⟩ := mem_map.1 hsecond
  obtain ⟨hid, rfl⟩ := counterId_eq_iff.1 hsame
  exact hshare ⟨⟨other, hkind, hother⟩, hid.symm⟩

theorem nodup_kinds : rule.kinds.Nodup :=
  Nodup.filter _ (by decide)

theorem le_idx_of_mem_numberRules {first : ℕ} {records : List Record}
    {rule : QuotaRule} (hrule : rule ∈ numberRules first records) :
    first ≤ rule.idx ∧ rule.record ∈ records := by
  induction records generalizing first with
  | nil => cases hrule
  | cons record records ih =>
    rcases mem_cons.1 hrule with rfl | hrule
    · exact ⟨le_rfl, mem_cons_self⟩
    · obtain ⟨hfirst, hrecord⟩ := ih hrule
      exact ⟨by omega, mem_cons_of_mem _ hrecord⟩

theorem pairwise_idx_numberRules (first : ℕ) (records : List Record) :
    (numberRules first records).Pairwise fun a b => a.idx < b.idx := by
  induction records generalizing first with
  | nil => exact .nil
  | cons record records ih =>
    refine .cons (fun rule hrule => ?_) (ih (first + 1))
    have hbound := (le_idx_of_mem_numberRules hrule).1
    exact hbound

theorem pairwise_idx_rules : env.rules.Pairwise fun a b => a.idx < b.idx :=
  (pairwise_idx_numberRules 1 _).filter _

/-- The ids are distinct unless two rules clash. -/
theorem nodup_counterIds_iff :
    (counterIds env.rules).Nodup ↔
      env.rules.Pairwise fun first second => ¬ Clash first second := by
  have hkinds : ∀ rule ∈ env.rules, (rule.kinds.map (counterId rule)).Nodup :=
    fun rule _ => (nodup_kinds rule).map
      fun _ _ hsame => (counterId_eq_iff.1 hsame).2
  rw [counterIds, nodup_flatMap, and_iff_right hkinds]
  constructor
  · intro hdisjoint
    refine ((pairwise_idx_rules env).and hdisjoint).imp ?_
    rintro first second ⟨hidx, hboth⟩
    rw [clash_iff hidx]
    exact disjoint_counterIds_iff.1 hboth
  · intro hclash
    refine ((pairwise_idx_rules env).and hclash).imp ?_
    rintro first second ⟨hidx, hboth⟩
    rw [clash_iff hidx] at hboth
    exact disjoint_counterIds_iff.2 hboth

/-! ## The id file -/

/-- The lines of the id file. -/
def listedIds : List Bytes :=
  ((iptQuotas env).ids.getD []).splitOn 10

theorem isDigit_of_mem_idstr {rule : QuotaRule} {char : Byte}
    (hchar : char ∈ rule.idstr) : isDigit char = true := by
  unfold QuotaRule.idstr at hchar
  split at hchar
  · next hvalid =>
    simp only [validId, Bool.and_eq_true, all_eq_true] at hvalid
    exact hvalid.2 char hchar
  · exact isDigit_of_mem_decimal _ char hchar

theorem mem_counterId {rule : QuotaRule} {kind : Kind} {char : Byte}
    (hchar : char ∈ counterId rule kind) :
    isDigit char = true ∨ char ∈ bytes "quota_dc" := by
  simp only [counterId, mem_append] at hchar
  rcases hchar with ((hfront | hid) | hbar) | hletter
  · exact .inr (mem_append_left _ hfront)
  · exact .inl (isDigit_of_mem_idstr hid)
  · rw [mem_singleton.1 hbar]
    exact .inr (by decide)
  · refine .inr ?_
    cases kind <;> rw [mem_singleton.1 hletter] <;> decide

theorem not_mem_counterId {char : Byte} (hdigit : isDigit char = false)
    (hword : char ∉ bytes "quota_dc") (rule : QuotaRule) (kind : Kind) :
    char ∉ counterId rule kind := by
  intro hchar
  rcases mem_counterId hchar with hmem | hmem
  · rw [hdigit] at hmem
    cases hmem
  · exact hword hmem

theorem counterId_ne_nil (kind : Kind) : counterId rule kind ≠ [] := by
  cases kind <;> simp [counterId, Kind.letter, bytes]

theorem splitOn_terminated {parts : List Bytes}
    (hparts : ∀ part ∈ parts, (10 : Byte) ∉ part) :
    (parts.flatMap (· ++ [10])).splitOn 10 = parts ++ [[]] := by
  induction parts with
  | nil => rfl
  | cons part parts ih =>
    rw [forall_mem_cons] at hparts
    rw [flatMap_cons, append_assoc, singleton_append,
      splitOn_append_cons_self_of_not_mem hparts.1, ih hparts.2]
    rfl

theorem mem_counterIds {rules : List QuotaRule} {id : Bytes} :
    id ∈ counterIds rules ↔
      ∃ rule ∈ rules, ∃ kind ∈ rule.kinds, counterId rule kind = id := by
  simp [counterIds]

theorem count_listedIds {env : Env} {id : Bytes} (hid : id ≠ []) :
    (listedIds env).count id =
      if builds env && env.idsOpens then (counterIds env.rules).count id
      else 0 := by
  cases hbuilds : builds env with
  | false => simp [listedIds, iptQuotas, hbuilds, Output.nothing, hid.symm]
  | true =>
    cases hopens : env.idsOpens with
    | false => simp [listedIds, iptQuotas, hbuilds, hopens, hid.symm]
    | true =>
      have htext : (iptQuotas env).ids =
          some ((counterIds env.rules).flatMap (· ++ [10])) := by
        simp only [iptQuotas, hbuilds, hopens, counterIds, if_true,
          flatMap_assoc, flatMap_map]
        rfl
      have hlines : ∀ part ∈ counterIds env.rules, (10 : Byte) ∉ part := by
        intro part hpart
        obtain ⟨rule, -, kind, -, rfl⟩ := mem_counterIds.1 hpart
        exact not_mem_counterId (by decide) (by decide) rule kind
      rw [listedIds, htext, Option.getD_some, splitOn_terminated hlines]
      simp [hid.symm]

/-! ## Distinct ids -/

/-- The ids that the rules of a family register differ, and each of them
stands once in the id file. -/
def IdsDistinct : Prop :=
  ∀ family, (familyIds env family).Nodup ∧
    ∀ id ∈ familyIds env family, (listedIds env).count id = 1

theorem familyIds_of_builds {env : Env} (hbuilds : builds env = true) :
    familyIds env .ipv4 = counterIds env.rules := by
  rw [familyIds_ipv4, counters_lines hbuilds]

theorem familyIds_of_not_builds {env : Env} (hbuilds : ¬ builds env = true)
    (family : Family) : familyIds env family = [] := by
  have hnone : familyIds env .ipv4 = [] := by
    rw [familyIds_ipv4, iptQuotas, if_neg hbuilds]
    rfl
  have hsublist := familyIds_sublist env family
  rw [hnone] at hsublist
  exact sublist_nil.1 hsublist

theorem accepted_of_mem_rules {env : Env} {rule : QuotaRule}
    (hrule : rule ∈ env.rules) : rule.record.accepted = true := by
  have hnumbered := mem_of_mem_filter hrule
  obtain ⟨text, -, hread⟩ :=
    mem_filterMap.1 (le_idx_of_mem_numberRules hnumbered).2
  exact (Option.filter_eq_some_iff.1 hread).2

/-- A record is only accepted with some cap. -/
theorem kinds_ne_nil {rule : QuotaRule}
    (haccepted : rule.record.accepted = true) : rule.kinds ≠ [] := by
  simp only [Record.accepted, Bool.and_eq_true, Bool.or_eq_true] at haccepted
  obtain ⟨-, hcap⟩ := haccepted
  intro hnone
  have hempty : ∀ kind, rule.limit kind = [] := by
    intro kind
    have hkind := filter_eq_nil_iff.1 hnone kind (by cases kind <;> simp)
    simpa using hkind
  have hdown := hempty .down
  have hup := hempty .up
  have hcomb := hempty .comb
  simp only [QuotaRule.limit] at hdown hup hcomb
  simp [hdown, hup, hcomb] at hcap

theorem ne_nil_of_mem_counterIds {rules : List QuotaRule} {id : Bytes}
    (hid : id ∈ counterIds rules) : id ≠ [] := by
  obtain ⟨rule, -, kind, -, rfl⟩ := mem_counterIds.1 hid
  exact counterId_ne_nil rule kind

theorem exists_mem_counterIds {env : Env} (hrules : env.rules ≠ []) :
    ∃ id, id ∈ counterIds env.rules := by
  obtain ⟨rule, hrule⟩ := exists_mem_of_ne_nil _ hrules
  obtain ⟨kind, hkind⟩ :=
    exists_mem_of_ne_nil _ (kinds_ne_nil (accepted_of_mem_rules hrule))
  exact ⟨_, mem_counterIds.2 ⟨rule, hrule, kind, hkind, rfl⟩⟩

/-- The ids are kept apart exactly when the file can be written and no two
rules clash.  The number that stands in for a missing id is not kept apart
from the ids of the other records. -/
theorem idsDistinct_iff (env : Env) :
    IdsDistinct env ↔
      (builds env = true →
        (env.rules ≠ [] → env.idsOpens = true) ∧
          env.rules.Pairwise fun first second => ¬ Clash first second) := by
  constructor
  · intro hdistinct hbuilds
    obtain ⟨hnodup, hlisted⟩ := hdistinct .ipv4
    rw [familyIds_of_builds hbuilds] at hnodup hlisted
    refine ⟨fun hrules => ?_, (nodup_counterIds_iff env).1 hnodup⟩
    obtain ⟨id, hid⟩ := exists_mem_counterIds hrules
    have hcount := hlisted id hid
    rw [count_listedIds (ne_nil_of_mem_counterIds hid), hbuilds] at hcount
    by_contra hopens
    simp [hopens] at hcount
  · intro hcondition family
    by_cases hbuilds : builds env = true
    swap
    · rw [familyIds_of_not_builds hbuilds family]
      exact ⟨nodup_nil, fun _ hid => by cases hid⟩
    obtain ⟨hopens, hclash⟩ := hcondition hbuilds
    have hsublist := familyIds_sublist env family
    rw [familyIds_of_builds hbuilds] at hsublist
    have hnodup := (nodup_counterIds_iff env).2 hclash
    refine ⟨hnodup.sublist hsublist, fun id hid => ?_⟩
    have hmem := hsublist.subset hid
    have hrules : env.rules ≠ [] := by
      rintro hnone
      rw [hnone] at hmem
      cases hmem
    rw [count_listedIds (ne_nil_of_mem_counterIds hmem), hbuilds,
      hopens hrules]
    exact count_eq_one_of_mem hnodup hmem

/-- The first record has the id 2, that of the second record is not a number.
Both end up with the id 2. -/
def fallbackEnv : Env :=
  .router [(bytes "quota_enable", bytes "1"),
    (bytes "quota_rules",
      bytes "1<ALL<1000<<<day<<<<0<<0<0<2>1<ALL<5000<<<week<<<<0<<0<0<x")]

/-- A download cap for the whole network. -/
def fallbackRecord (dlimit reset ruleid : Bytes) : Record where
  enabled := bytes "1"
  ip := bytes "ALL"
  dlimit := dlimit
  ulimit := []
  climit := []
  reset := reset
  rday := []
  rhour := []
  active := []
  action := bytes "0"
  tdl := bytes "0"
  tul := bytes "0"
  ruleid := ruleid

theorem idsDistinct_fallback_fails : ¬ IdsDistinct fallbackEnv := by
  intro hdistinct
  have hbuilds : builds fallbackEnv = true := by decide
  have hrules : fallbackEnv.rules =
      [⟨1, fallbackRecord (bytes "1000") (bytes "day") (bytes "2")⟩,
        ⟨2, fallbackRecord (bytes "5000") (bytes "week") (bytes "x")⟩] := by
    decide
  have hnumber : bytes "2" = decimal 2 := by
    rw [decimal]
    decide
  have hnodup := (hdistinct .ipv4).1
  rw [familyIds_of_builds hbuilds, nodup_counterIds_iff, hrules,
    pairwise_pair] at hnodup
  refine hnodup ⟨⟨.down, by decide, by decide⟩, .inr (.inl ?_)⟩
  exact ⟨by decide, by decide, hnumber⟩

end Tomato64.QuotaRules
