import Tomato64.Quota.Ids

/-!
# What a quota chain does to a mark

A packet runs through the rules of `ipt_quotas` with an oracle that says which
caps are over.  Five fields of its mark carry the state from rule to rule.  On
these fields the rules of a chain amount to a fold over its caps.
-/

namespace Tomato64.QuotaRules

open Chains List Text

/-- A forwarded packet.  `matchesAddr` decides the text of an address test. -/
structure Packet where
  inFace : Bytes
  outFace : Bytes
  mark : Mark
  matchesAddr : Bytes → Bool

/-- A name that ends in a plus sign stands for all that start like it. -/
def faceMatches (pattern name : Bytes) : Bool :=
  if pattern.getLast? = some 43 then pattern.dropLast.isPrefixOf name
  else pattern = name

/-- Which caps are over, by the number of the rule and the kind. -/
abbrev Oracle := ℕ → Kind → Bool

def holds (packet : Packet) (spent : Oracle) (test : Test) (mark : Mark) :
    Bool :=
  match test with
  | .inFace name => faceMatches name packet.inFace
  | .outFace name => faceMatches name packet.outFace
  | .mark value mask => markIs value mask mark
  | .addr text => packet.matchesAddr text
  | .bandwidth idx kind _ _ => spent idx kind

/-- `FORWARD` enters `quota_fwd`, which enters the others. -/
def chainDepth : ℕ := 3

def forward (env : Env) (packet : Packet) (spent : Oracle) :
    Option (Walk Chain × Bool) :=
  runChain (holds packet spent) (familyRules env .ipv4) chainDepth .forward
    ⟨packet.mark, []⟩

/-! ## Which caps apply -/

/-- All records that are accepted, also those without an address. -/
def Env.accepted (env : Env) : List QuotaRule :=
  quotaRules (env.nvram (bytes "quota_rules"))

/-- The addresses of a rule as its record lists them. -/
def QuotaRule.listedAddrs (rule : QuotaRule) : List Bytes :=
  if quotaScopeHasAddrs rule.scope then
    addressTokens (quotaHostsAddrs rule.record.ip)
  else []

def addrTexts (addrs : List Bytes) (kind : Kind) : List Bytes :=
  addrs.flatMap fun addr => kind.dirs.map (quotaAddrTest addr)

def Packet.matchesAny (packet : Packet) (addrs : List Bytes) (kind : Kind) :
    Bool :=
  (addrTexts addrs kind).any packet.matchesAddr

abbrev Cap := QuotaRule × Kind

/-- A rule for hosts applies to its addresses, a catch-all to packets that no
address of another rule matches. -/
def applies (addrsOf : QuotaRule → List Bytes) (env : Env) (packet : Packet)
    (cap : Cap) : Bool :=
  match cap.1.scope with
  | .all => true
  | .othersComb | .othersIndiv =>
    !env.accepted.any fun rule => packet.matchesAny (addrsOf rule) cap.2
  | .hosts | .hostsShared => packet.matchesAny (addrsOf cap.1) cap.2

/-- The caps of a chain, in the order of their records. -/
def capsOf (env : Env) (chain : Chain) : List Cap :=
  env.accepted.flatMap fun rule =>
    (rule.kinds.filter fun kind => kind.chain = chain).map (rule, ·)

variable (appliesTo : Cap → Bool)

def struck (env : Env) (spent : Oracle) (cap : Cap) : Bool :=
  appliesTo cap && spent cap.1.idx cap.2 && !overBand env cap.1 cap.2

def slowed (env : Env) (spent : Oracle) (cap : Cap) : Bool :=
  appliesTo cap && spent cap.1.idx cap.2 && overBand env cap.1 cap.2

/-! ## The fields of a mark -/

structure Fields where
  hit : Bool
  explicit : Bool
  combined : Bool
  death : Bool
  band : BitVec 8
deriving DecidableEq, Repr

variable (mark : Mark)

def fields : Fields where
  hit := mark.getLsbD 31
  explicit := mark.getLsbD 30
  combined := mark.getLsbD 29
  death := mark.getLsbD 28
  band := mark.extractLsb' quotaMarkBandShift 8

def Fields.write (value mask old : Fields) : Fields where
  hit := old.hit && !mask.hit || value.hit
  explicit := old.explicit && !mask.explicit || value.explicit
  combined := old.combined && !mask.combined || value.combined
  death := old.death && !mask.death || value.death
  band := (old.band &&& ~~~mask.band) ||| value.band

theorem fields_setMark (value mask mark : Mark) :
    fields (setMark value mask mark) =
      (fields value).write (fields mask) (fields mark) := by
  have hband : (setMark value mask mark).extractLsb' quotaMarkBandShift 8 =
      (mark.extractLsb' quotaMarkBandShift 8 &&&
        ~~~mask.extractLsb' quotaMarkBandShift 8) |||
        value.extractLsb' quotaMarkBandShift 8 := by
    apply BitVec.eq_of_getLsbD_eq
    intro bit hbit
    have hin : quotaMarkBandShift + bit < 32 := by
      simp only [quotaMarkBandShift]
      omega
    simp [getLsbD_setMark _ _ _ hin, hbit]
  rw [fields, hband, getLsbD_setMark _ _ _ (by decide),
    getLsbD_setMark _ _ _ (by decide), getLsbD_setMark _ _ _ (by decide),
    getLsbD_setMark _ _ _ (by decide)]
  rfl

theorem and_full (byte : BitVec 8) : byte &&& 255#8 = byte :=
  BitVec.and_allOnes

theorem fields_zero : fields 0 = ⟨false, false, false, false, 0⟩ := by
  decide

theorem fields_hit : fields quotaMarkHit = ⟨true, false, false, false, 0⟩ := by
  decide

theorem fields_combined :
    fields quotaMarkCombined = ⟨false, false, true, false, 0⟩ := by
  decide

theorem fields_setHit :
    fields (setMark quotaMarkHit quotaMarkHit mark) =
      { fields mark with hit := true } := by
  rw [fields_setMark, fields_hit]
  simp [Fields.write, and_full]

theorem fields_clearHit :
    fields (setMark 0 quotaMarkHit mark) =
      { fields mark with hit := false } := by
  rw [fields_setMark, fields_hit, fields_zero]
  simp [Fields.write, and_full]

theorem fields_setExplicit :
    fields (setMark quotaMarkExplicit quotaMarkExplicit mark) =
      { fields mark with explicit := true } := by
  have hfields : fields quotaMarkExplicit = ⟨false, true, false, false, 0⟩ := by
    decide
  rw [fields_setMark, hfields]
  simp [Fields.write, and_full]

theorem fields_clearCombined :
    fields (setMark 0 quotaMarkCombined mark) =
      { fields mark with combined := false } := by
  rw [fields_setMark, fields_combined, fields_zero]
  simp [Fields.write, and_full]

/-- The band of a mark after the entry point has cleared it. -/
def clearedBand (env : Env) (mark : Mark) : BitVec 8 :=
  if dlFree env then 0 else (fields mark).band

theorem fields_clear (env : Env) (mark : Mark) :
    fields (setMark 0 (clearmask env) mark) =
      ⟨false, false, false, false, clearedBand env mark⟩ := by
  have hall : fields quotaMarkAll = ⟨true, true, true, true, 0⟩ := by decide
  have hallBand : fields quotaMarkAllBand =
      ⟨true, true, true, true, 255⟩ := by decide
  cases hfree : dlFree env with
  | true =>
    rw [fields_setMark, clearmask, hfree, if_pos rfl, hallBand, fields_zero]
    simp [Fields.write, clearedBand, hfree]
  | false =>
    rw [fields_setMark, clearmask, hfree, if_neg (by decide), hall, fields_zero]
    simp [Fields.write, clearedBand, hfree, and_full]

/-- What an over quota packet gets. -/
def stamp (env : Env) (cap : Cap) (old : Fields) : Fields :=
  if overBand env cap.1 cap.2 then
    { old with band := BitVec.ofNat 8 cap.1.idx }
  else { old with death := true }

theorem fields_band {idx : ℕ} (hidx : idx ≤ quotaMarkBandMax) :
    fields (band idx) = ⟨false, false, false, false, BitVec.ofNat 8 idx⟩ := by
  have hall : ∀ idx < 256, fields (band idx) =
      ⟨false, false, false, false, BitVec.ofNat 8 idx⟩ := by
    decide +kernel
  exact hall idx (Nat.lt_succ_of_le hidx)

theorem fields_over (env : Env) (cap : Cap) (mark : Mark) :
    fields (setMark (overMark env cap.1 cap.2) (overMask env cap.1 cap.2)
      mark) = stamp env cap (fields mark) := by
  have hdeath : fields quotaMarkDeath = ⟨false, false, false, true, 0⟩ := by
    decide
  have hmask : fields quotaMarkBandMask =
      ⟨false, false, false, false, 255⟩ := by decide
  cases hover : overBand env cap.1 cap.2 with
  | true =>
    rw [fields_setMark, overMark, overMask, hover, if_pos rfl, if_pos rfl,
      fields_band (idx_le_of_overBand hover).1, hmask]
    simp [Fields.write, stamp, hover]
  | false =>
    rw [fields_setMark, overMark, overMask, hover, if_neg (by decide),
      if_neg (by decide), hdeath]
    simp [Fields.write, stamp, hover, and_full]

theorem markIs_hit :
    markIs quotaMarkHit quotaMarkHit mark = (fields mark).hit :=
  markIs_twoPow mark (show 31 < 32 by decide)

theorem markIs_combined :
    markIs quotaMarkCombined quotaMarkCombined mark = (fields mark).combined :=
  markIs_twoPow mark (show 29 < 32 by decide)

theorem markIs_death :
    markIs quotaMarkDeath quotaMarkDeath mark = (fields mark).death :=
  markIs_twoPow mark (show 28 < 32 by decide)

theorem markIs_notExplicit :
    markIs 0#32 quotaMarkExplicit mark = !(fields mark).explicit :=
  markIs_zero_twoPow mark (show 30 < 32 by decide)

theorem markIs_alive : markIs 0#32 quotaMarkDeath mark = !(fields mark).death :=
  markIs_zero_twoPow mark (show 28 < 32 by decide)

/-! ## The caps of one chain -/

section
variable (appliesTo : Cap → Bool) (env : Env) (spent : Oracle)

def capStep (old : Fields) (cap : Cap) : Fields :=
  if appliesTo cap && spent cap.1.idx cap.2 then stamp env cap old else old

def lastBand (caps : List Cap) (old : BitVec 8) : BitVec 8 :=
  (((caps.filter (slowed appliesTo env spent)).getLast?).map
    fun cap => BitVec.ofNat 8 cap.1.idx).getD old

theorem lastBand_append (front back : List Cap) (old : BitVec 8) :
    lastBand appliesTo env spent (front ++ back) old =
      lastBand appliesTo env spent back
        (lastBand appliesTo env spent front old) := by
  unfold lastBand
  rw [filter_append, getLast?_append]
  cases (back.filter (slowed appliesTo env spent)).getLast? <;> simp

theorem lastBand_idem (caps : List Cap) (old : BitVec 8) :
    lastBand appliesTo env spent caps (lastBand appliesTo env spent caps old) =
      lastBand appliesTo env spent caps old := by
  unfold lastBand
  cases (caps.filter (slowed appliesTo env spent)).getLast? <;> rfl

theorem foldl_capStep (caps : List Cap) (old : Fields) :
    caps.foldl (capStep appliesTo env spent) old = { old with
        death := old.death || caps.any (struck appliesTo env spent)
        band := lastBand appliesTo env spent caps old.band } := by
  induction caps generalizing old with
  | nil => simp [lastBand]
  | cons cap caps ih =>
    rw [foldl_cons, ih, ← singleton_append, lastBand_append]
    cases hover : appliesTo cap && spent cap.1.idx cap.2 <;>
      cases hband : overBand env cap.1 cap.2 <;>
      simp [capStep, stamp, struck, slowed, lastBand, hover, hband]

end

/-! ## The rules of one chain -/

section
variable {packet : Packet} {spent : Oracle}

/-- Rules that turn a flag on for the packets of some addresses. -/
theorem fields_runMarks_addrs {flag : Mark} (turn : Fields → Fields)
    (hturn : ∀ mark, fields (setMark flag flag mark) = turn (fields mark))
    (hidem : ∀ old, turn (turn old) = turn old) (chain : Chain)
    (texts : List Bytes) (mark : Mark) :
    fields (runMarks (holds packet spent)
        (texts.map fun text => ⟨chain, [.addr text], .setMark flag flag⟩)
        mark) =
      if texts.any packet.matchesAddr then turn (fields mark)
      else fields mark := by
  induction texts generalizing mark with
  | nil => rfl
  | cons text texts ih =>
    rw [map_cons, ← singleton_append, runMarks_append, ih]
    cases hmatch : packet.matchesAddr text
    · simp [runMarks, Rule.applies, holds, hmatch]
    · simp [runMarks, Rule.applies, holds, hmatch, hturn, hidem]

theorem fields_runMarks_hits (chain : Chain) (texts : List Bytes)
    {mark : Mark} (hhit : (fields mark).hit = false) :
    fields (runMarks (holds packet spent)
        (texts.map fun text =>
          ⟨chain, [.addr text], .setMark quotaMarkHit quotaMarkHit⟩) mark) =
      { fields mark with hit := texts.any packet.matchesAddr } := by
  rw [fields_runMarks_addrs (fun old => { old with hit := true })
    fields_setHit (fun _ => rfl)]
  split
  · next hany => rw [hany]
  · next hany => rw [Bool.eq_false_iff.2 hany, ← hhit]

theorem fields_runMarks_flags (chain : Chain) (texts : List Bytes)
    (mark : Mark) :
    fields (runMarks (holds packet spent)
        (texts.map fun text =>
          ⟨chain, [.addr text],
            .setMark quotaMarkExplicit quotaMarkExplicit⟩) mark) =
      { fields mark with
        explicit := (fields mark).explicit ||
          texts.any packet.matchesAddr } := by
  rw [fields_runMarks_addrs (fun old => { old with explicit := true })
    fields_setExplicit (fun _ => rfl)]
  split
  · next hany => rw [hany, Bool.or_true]
  · next hany => rw [Bool.eq_false_iff.2 hany, Bool.or_false]

theorem fields_runMarks_single (chain : Chain) (tests : List Test)
    (value mask mark : Mark) :
    fields (runMarks (holds packet spent)
        [⟨chain, tests, .setMark value mask⟩] mark) =
      if tests.all (fun test => holds packet spent test mark) then
        fields (setMark value mask mark)
      else fields mark := by
  rw [← apply_ite fields]
  rfl

theorem all_skipTest (rule : QuotaRule) (mark : Mark) :
    (skipTest rule).all (fun test => holds packet spent test mark) =
      (decide (rule.scope ≠ .othersComb ∧ rule.scope ≠ .othersIndiv) ||
        !(fields mark).explicit) := by
  unfold skipTest
  split
  · next hothers =>
    rcases hothers with hscope | hscope <;>
      simp [holds, hscope, markIs_notExplicit]
  · next hothers =>
    rw [not_or] at hothers
    simp [hothers]

variable {env : Env} {rule : QuotaRule} {kind : Kind}

/-- The metering rule of a cap with addresses, and the rule that takes the
mark back. -/
theorem fields_runMarks_meter {id text : Bytes} :
    fields (runMarks (holds packet spent)
        ([iptWrite kind.chain (.mark quotaMarkHit quotaMarkHit ::
            [] ++ [.bandwidth rule.idx kind id text])
            (.setMark (overMark env rule kind) (overMask env rule kind)),
          iptWrite kind.chain [] (.setMark 0 quotaMarkHit)].map Line.rule)
        mark) = { (if (fields mark).hit && spent rule.idx kind then
          stamp env (rule, kind) (fields mark) else fields mark) with
        hit := false } := by
  rw [map_cons, ← singleton_append, runMarks_append, map_singleton]
  refine (fields_clearHit _).trans ?_
  refine congrArg (fun old : Fields => { old with hit := false }) ?_
  refine (fields_runMarks_single _ _ _ _ _).trans ?_
  rw [fields_over env (rule, kind)]
  simp [holds, markIs_hit]

theorem hasAddrs_of_addrs (haddrs : rule.addrs ≠ []) :
    quotaScopeHasAddrs rule.scope = true := by
  by_contra hscope
  rw [QuotaRule.addrs, if_neg hscope] at haddrs
  exact haddrs rfl

theorem fields_runMarks_capLines (hemits : rule.emits = true) {mark : Mark}
    (hhit : (fields mark).hit = false) (hexplicit : (fields mark).explicit =
      env.accepted.any fun other => packet.matchesAny other.addrs kind) :
    fields (runMarks (holds packet spent)
        ((capLines env rule kind).map Line.rule) mark) =
      capStep (applies QuotaRule.addrs env packet) env spent (fields mark)
        (rule, kind) := by
  unfold capLines quotaEmit
  split
  · next haddrs =>
    have hscope : quotaScopeHasAddrs rule.scope = false := by
      simpa [QuotaRule.emits, haddrs] using hemits
    rw [map_singleton, fields_runMarks_single, all_append,
      all_skipTest, fields_over env (rule, kind), hexplicit]
    cases hrule : rule.scope <;>
      simp_all [capStep, applies, holds, quotaScopeHasAddrs]
  · next haddrs =>
    have hscope := hasAddrs_of_addrs haddrs
    have htexts : (rule.addrs.flatMap fun addr => kind.dirs.map fun dir =>
        iptWrite kind.chain [.addr (quotaAddrTest addr dir)]
          (.setMark quotaMarkHit quotaMarkHit)).map Line.rule =
        (addrTexts rule.addrs kind).map fun text =>
          ⟨kind.chain, [.addr text], .setMark quotaMarkHit quotaMarkHit⟩ := by
      simp [addrTexts, map_flatMap, iptWrite, Function.comp_def]
    have hskip : skipTest rule = [] := by
      cases hrule : rule.scope <;>
        simp_all [skipTest, quotaScopeHasAddrs]
    have happlies : applies QuotaRule.addrs env packet (rule, kind) =
        packet.matchesAny rule.addrs kind := by
      cases hrule : rule.scope <;>
        simp_all [applies, quotaScopeHasAddrs]
    rw [map_append, htexts, runMarks_append, hskip]
    refine (fields_runMarks_meter _).trans ?_
    rw [fields_runMarks_hits _ _ hhit, ← Packet.matchesAny, capStep, happlies]
    generalize fields mark = old at hhit
    obtain ⟨hit, explicit, combined, death, band⟩ := old
    obtain rfl : hit = false := hhit
    cases packet.matchesAny rule.addrs kind <;>
      cases spent rule.idx kind <;>
      cases hband : overBand env rule kind <;>
      simp [stamp, hband]

/-! ## The rules of a chain together -/

def matched (addrsOf : QuotaRule → List Bytes) (env : Env) (packet : Packet)
    (kind : Kind) : Bool :=
  env.accepted.any fun rule => packet.matchesAny (addrsOf rule) kind

def capRules (env : Env) (kind : Kind) (rule : QuotaRule) :
    List (Rule Chain Test) :=
  if kind ∈ rule.kinds then (capLines env rule kind).map Line.rule else []

def flagRules (kind : Kind) (texts : List Bytes) : List (Rule Chain Test) :=
  texts.map fun text =>
    ⟨kind.chain, [.addr text], .setMark quotaMarkExplicit quotaMarkExplicit⟩

theorem chain_of_mem_capLines {line : Line}
    (hline : line ∈ capLines env rule kind) :
    line.rule.chain = kind.chain ∧ line.rule.Marks := by
  unfold capLines quotaEmit at hline
  split at hline
  · simp only [mem_singleton] at hline
    subst hline
    exact ⟨rfl, _, _, rfl⟩
  · simp only [iptWrite, mem_append, mem_flatMap, mem_map,
      mem_cons, not_mem_nil, or_false] at hline
    rcases hline with ⟨_, _, _, _, rfl⟩ | rfl | rfl <;>
      exact ⟨rfl, _, _, rfl⟩

theorem chain_injective : Function.Injective Kind.chain := by
  intro first second
  cases first <;> cases second <;> decide

theorem chainRules_capLines (other : Kind) :
    chainRules ((capLines env rule other).map Line.rule) kind.chain =
      if other = kind then (capLines env rule other).map Line.rule else [] := by
  have hchain : ∀ rule' ∈ (capLines env rule other).map Line.rule,
      rule'.chain = other.chain := by
    intro rule' hrule
    obtain ⟨line, hline, rfl⟩ := mem_map.1 hrule
    exact (chain_of_mem_capLines hline).1
  split
  · next hother => exact chainRules_of_forall _ (hother ▸ hchain)
  · next hother =>
    refine chainRules_eq_nil _ fun rule' hrule heq => hother ?_
    exact chain_injective ((hchain rule' hrule).symm.trans heq)

theorem flatMap_ite_eq {β : Type} {kinds : List Kind} (hnodup : kinds.Nodup)
    (values : Kind → List β) :
    (kinds.flatMap fun other => if other = kind then values other else []) =
      if kind ∈ kinds then values kind else [] := by
  induction kinds with
  | nil => rfl
  | cons first kinds ih =>
    rw [nodup_cons] at hnodup
    rw [flatMap_cons, ih hnodup.2]
    by_cases hfirst : first = kind
    · subst hfirst
      simp [hnodup.1]
    · simp [hfirst, Ne.symm hfirst]

theorem chainRules_flagLines :
    chainRules ((flagLines rule).map Line.rule) kind.chain =
      flagRules kind (addrTexts rule.addrs kind) := by
  rw [flagLines, map_flatMap, chainRules_flatMap, flagRules, addrTexts,
    map_flatMap]
  cases kind <;> rfl

theorem chainRules_entryLines (mask : Mark) (faces : List Bytes) :
    chainRules ((entryLines mask faces).map Line.rule) kind.chain = [] := by
  rw [entryLines, map_append, map_append, map_flatMap,
    chainRules_append, chainRules_append, chainRules_flatMap]
  cases kind <;> simp [chainRules, faceLines, ip46tWrite, Kind.chain]

theorem chainRules_kind (hbuilds : builds env = true) (kind : Kind) :
    chainRules (familyRules env .ipv4) kind.chain =
      flagRules kind (env.rules.flatMap fun rule =>
          addrTexts rule.addrs kind) ++
        env.rules.flatMap (capRules env kind) := by
  have hflags : flagRules kind (env.rules.flatMap fun rule =>
      addrTexts rule.addrs kind) =
      env.rules.flatMap fun rule =>
        flagRules kind (addrTexts rule.addrs kind) := map_flatMap ..
  have hcaps : ∀ rule : QuotaRule, (rule.kinds.flatMap fun other =>
      chainRules ((capLines env rule other).map Line.rule) kind.chain) =
      capRules env kind rule := by
    intro rule
    simp only [chainRules_capLines]
    exact flatMap_ite_eq (nodup_kinds rule) _
  have hend : chainRules (enforcementLines.map Line.rule) kind.chain = [] := by
    cases kind <;> rfl
  rw [familyRules, iptQuotas, if_pos hbuilds]
  simp only [map_append, map_flatMap, chainRules_append,
    chainRules_flatMap, chainRules_entryLines, chainRules_flagLines, hcaps,
    hend, hflags, nil_append, append_nil]

theorem filter_chain_kinds (rule : QuotaRule) (kind : Kind) :
    (rule.kinds.filter fun other => other.chain = kind.chain) =
      if kind ∈ rule.kinds then [kind] else [] := by
  have hsame : ∀ other : Kind, other.chain = kind.chain ↔ other = kind :=
    fun _ => chain_injective.eq_iff
  simp only [hsame]
  cases kind <;> by_cases hdown : rule.limit .down = [] <;>
    by_cases hup : rule.limit .up = [] <;>
    by_cases hcomb : rule.limit .comb = [] <;>
    simp [QuotaRule.kinds, hdown, hup, hcomb]

theorem addrs_of_not_emits (hemits : rule.emits = false) :
    quotaScopeHasAddrs rule.scope = true ∧ rule.addrs = [] := by
  simpa [QuotaRule.emits] using hemits

/-- A rule that is skipped applies to nothing. -/
theorem applies_of_not_emits (hemits : rule.emits = false) :
    applies QuotaRule.addrs env packet (rule, kind) = false := by
  obtain ⟨hscope, haddrs⟩ := addrs_of_not_emits hemits
  have hnone : packet.matchesAny [] kind = false := rfl
  cases hrule : rule.scope <;>
    simp_all [applies, quotaScopeHasAddrs]

/-- One rule of the second pass. -/
theorem fields_runMarks_capRule (rule : QuotaRule) {mark : Mark}
    (hhit : (fields mark).hit = false) (hexplicit : (fields mark).explicit =
      matched QuotaRule.addrs env packet kind) :
    fields (runMarks (holds packet spent)
        (if rule.emits then capRules env kind rule else []) mark) =
      ((rule.kinds.filter fun other => other.chain = kind.chain).map
        (rule, ·)).foldl
        (capStep (applies QuotaRule.addrs env packet) env spent)
        (fields mark) := by
  rw [filter_chain_kinds, capRules]
  by_cases hkind : kind ∈ rule.kinds
  · rw [if_pos hkind, if_pos hkind, map_singleton, foldl_cons, foldl_nil]
    cases hemits : rule.emits with
    | false => simp [capStep, applies_of_not_emits hemits, runMarks]
    | true => exact fields_runMarks_capLines hemits hhit hexplicit
  · rw [if_neg hkind, if_neg hkind, ite_self]
    rfl

theorem fields_runMarks_capRules (rules : List QuotaRule) {mark : Mark}
    (hhit : (fields mark).hit = false) (hexplicit : (fields mark).explicit =
      matched QuotaRule.addrs env packet kind) :
    fields (runMarks (holds packet spent)
        ((rules.filter QuotaRule.emits).flatMap (capRules env kind)) mark) =
      (rules.flatMap fun rule =>
        (rule.kinds.filter fun other => other.chain = kind.chain).map
          (rule, ·)).foldl
        (capStep (applies QuotaRule.addrs env packet) env spent)
        (fields mark) := by
  induction rules generalizing mark with
  | nil => rfl
  | cons rule rules ih =>
    have hcons : ((rule :: rules).filter QuotaRule.emits).flatMap
        (capRules env kind) =
        (if rule.emits then capRules env kind rule else []) ++
          (rules.filter QuotaRule.emits).flatMap (capRules env kind) := by
      rw [filter_cons]
      split <;> rfl
    rw [hcons, runMarks_append, flatMap_cons, foldl_append,
      ← fields_runMarks_capRule rule hhit hexplicit]
    apply ih <;> rw [fields_runMarks_capRule rule hhit hexplicit]
    · rw [foldl_capStep]
      exact hhit
    · rw [foldl_capStep]
      exact hexplicit

theorem any_rules_eq_matched :
    (env.rules.flatMap fun rule => addrTexts rule.addrs kind).any
        packet.matchesAddr = matched QuotaRule.addrs env packet kind := by
  rw [any_flatMap, Env.rules, emittedRules, any_filter, matched]
  refine any_congr rfl fun rule => ?_
  cases hemits : rule.emits with
  | false =>
    rw [(addrs_of_not_emits hemits).2]
    rfl
  | true => rfl

theorem fields_runMarks_chain (hbuilds : builds env = true) {mark : Mark}
    (hhit : (fields mark).hit = false)
    (hexplicit : (fields mark).explicit = true →
      matched QuotaRule.addrs env packet kind = true) :
    fields (runMarks (holds packet spent)
        (chainRules (familyRules env .ipv4) kind.chain) mark) =
      { fields mark with
        explicit := matched QuotaRule.addrs env packet kind
        death := (fields mark).death || (capsOf env kind.chain).any
          (struck (applies QuotaRule.addrs env packet) env spent)
        band := lastBand (applies QuotaRule.addrs env packet) env spent
          (capsOf env kind.chain) (fields mark).band } := by
  have hor : ((fields mark).explicit ||
      matched QuotaRule.addrs env packet kind) =
      matched QuotaRule.addrs env packet kind := by
    cases hold : (fields mark).explicit with
    | false => rw [Bool.false_or]
    | true => rw [hexplicit hold, Bool.true_or]
  have hflagged : fields (runMarks (holds packet spent) (flagRules kind
      (env.rules.flatMap fun rule => addrTexts rule.addrs kind)) mark) =
      { fields mark with
        explicit := matched QuotaRule.addrs env packet kind } := by
    rw [flagRules, fields_runMarks_flags, any_rules_eq_matched, hor]
  rw [chainRules_kind hbuilds, runMarks_append]
  refine (fields_runMarks_capRules env.accepted ?_ ?_).trans ?_
  · rw [hflagged, hhit]
  · rw [hflagged]
  · rw [hflagged]
    exact foldl_capStep _ _ _ _ _

theorem marks_of_mem_chainRules (hbuilds : builds env = true)
    {entry : Rule Chain Test}
    (hentry : entry ∈ chainRules (familyRules env .ipv4) kind.chain) :
    entry.Marks := by
  rw [chainRules_kind hbuilds, mem_append] at hentry
  rcases hentry with hflag | hcap
  · obtain ⟨text, -, rfl⟩ := mem_map.1 hflag
    exact ⟨_, _, rfl⟩
  obtain ⟨rule, -, hrule⟩ := mem_flatMap.1 hcap
  unfold capRules at hrule
  split at hrule
  · obtain ⟨line, hline, rfl⟩ := mem_map.1 hrule
    exact (chain_of_mem_capLines hline).2
  · cases hrule

/-- Running through the chain of a kind. -/
theorem runChain_kind (hbuilds : builds env = true) (kind : Kind) (depth : ℕ)
    (walk : Walk Chain) :
    runChain (holds packet spent) (familyRules env .ipv4) (depth + 1) kind.chain
        walk =
      some (⟨runMarks (holds packet spent)
        (chainRules (familyRules env .ipv4) kind.chain) walk.mark,
          walk.entered ++ [kind.chain]⟩, false) := by
  rw [runChain, runRules_of_marks fun entry => marks_of_mem_chainRules hbuilds]

end

end Tomato64.QuotaRules
