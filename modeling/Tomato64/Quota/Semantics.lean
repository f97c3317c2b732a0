import Tomato64.Quota.Forward

/-!
# What the quota chains are for

A packet is dropped for a cap that blocks, and otherwise gets the band of the
last cap that throttles.  Which caps apply to it is a matter of the addresses
in the records.  `ipt_quotas` copies the list of a record into a buffer of 512
bytes and keeps at most 64 addresses of it, so a longer list loses some.
-/

namespace Tomato64.QuotaRules

open Chains List Text

def startBand (env : Env) (packet : Packet) : BitVec 8 :=
  if builds env then clearedBand env packet.mark
  else (fields packet.mark).band

/-- The outcome agrees with the caps of the chains that were entered. -/
structure Follows (appliesTo : Cap → Bool) (env : Env) (packet : Packet)
    (spent : Oracle) (walk : Walk Chain) (dropped : Bool) : Prop where
  dropped_iff : dropped = true ↔
    ∃ chain ∈ walk.entered, ∃ cap ∈ capsOf env chain,
      struck appliesTo env spent cap = true
  combined_once : walk.entered.count .quotaComb ≤ 1
  band_eq : dropped = false →
    (fields walk.mark).band = lastBand appliesTo env spent
      (walk.entered.flatMap (capsOf env)) (startBand env packet)

/-- A forwarded packet of one hooked interface is treated as the records say,
whichever caps are over. -/
def MarkSemantics (env : Env) (packet : Packet) : Prop :=
  (∃ kind, packet.Uses env kind) →
    ∀ spent, ∃ walk dropped, forward env packet spent = some (walk, dropped) ∧
      Follows (applies QuotaRule.listedAddrs env packet) env packet spent walk
        dropped

/-! ## The caps of the chains -/

section
variable {env : Env} {packet : Packet} {spent : Oracle} {kind : Kind}
variable {appliesTo other : Cap → Bool} {chain : Chain}

theorem mem_capsOf {cap : Cap} :
    cap ∈ capsOf env chain ↔
      cap.1 ∈ env.accepted ∧ cap.2 ∈ cap.1.kinds ∧ cap.2.chain = chain := by
  obtain ⟨rule, kind⟩ := cap
  simp [capsOf]

theorem capsOf_eq_nil (hchain : ∀ kind : Kind, kind.chain ≠ chain) :
    capsOf env chain = [] := by
  refine eq_nil_iff_forall_not_mem.2 fun cap hcap => ?_
  exact hchain cap.2 (mem_capsOf.1 hcap).2.2

theorem capsOf_forward : capsOf env .forward = [] :=
  capsOf_eq_nil fun kind => by cases kind <;> decide

theorem capsOf_quotaFwd : capsOf env .quotaFwd = [] :=
  capsOf_eq_nil fun kind => by cases kind <;> decide

theorem lastBand_replicate (appliesTo : Cap → Bool) {times : ℕ}
    (htimes : times ≠ 0) (chain : Chain) (band : BitVec 8) :
    lastBand appliesTo env spent
        ((replicate times chain).flatMap (capsOf env)) band =
      lastBand appliesTo env spent (capsOf env chain) band := by
  induction times generalizing band with
  | zero => exact absurd rfl htimes
  | succ times ih =>
    rw [replicate_succ, flatMap_cons, lastBand_append]
    by_cases hzero : times = 0
    · subst hzero
      rfl
    · rw [ih hzero, lastBand_idem]

theorem ne_comb_of_uses (huses : packet.Uses env kind) : kind ≠ .comb := by
  rintro rfl
  obtain ⟨face, -, hhits⟩ := any_eq_true.1 huses.1
  cases hhits

theorem mem_reached {times : ℕ} (htimes : times ≠ 0) :
    chain ∈ reached env packet spent kind times ↔
      chain = kind.chain ∨
        deadly env packet spent kind = false ∧ chain = Kind.comb.chain := by
  cases hdead : deadly env packet spent kind <;>
    simp [reached, hdead, mem_replicate, htimes]

theorem deadly_eq_true_iff :
    deadly env packet spent kind = true ↔
      ∃ cap ∈ capsOf env kind.chain,
        struck (applies QuotaRule.addrs env packet) env spent cap = true := by
  rw [deadly, any_eq_true]

/-- The code treats a packet as the addresses it has kept say. -/
theorem follows_of_builds (hbuilds : builds env = true)
    (huses : packet.Uses env kind) (spent : Oracle) :
    ∃ walk dropped, forward env packet spent = some (walk, dropped) ∧
      (∃ times, times ≠ 0 ∧ walk.entered = [.forward, .quotaFwd] ++
        reached env packet spent kind times) ∧
      Follows (applies QuotaRule.addrs env packet) env packet spent walk
        dropped := by
  obtain ⟨times, mark, htimes, hband, hrun⟩ := forward_eq hbuilds huses spent
  have hcomb : kind.chain ≠ .quotaComb :=
    fun hsame => ne_comb_of_uses huses (chain_injective hsame)
  refine ⟨_, _, hrun, ⟨times, htimes, rfl⟩, ?_, ?_, ?_⟩
  · rw [Bool.or_eq_true, deadly_eq_true_iff]
    constructor
    · rintro (hdead | hdead)
      · exact ⟨kind.chain, by simp [mem_reached htimes], hdead⟩
      cases hkind : deadly env packet spent kind with
      | true =>
        exact ⟨kind.chain, by simp [mem_reached htimes],
          deadly_eq_true_iff.1 hkind⟩
      | false =>
        exact ⟨Kind.comb.chain, by simp [mem_reached htimes, hkind],
          deadly_eq_true_iff.1 hdead⟩
    · rintro ⟨chain, hchain, cap, hcap, hstruck⟩
      simp only [cons_append, nil_append, mem_cons,
        mem_reached htimes] at hchain
      rcases hchain with rfl | rfl | rfl | ⟨-, rfl⟩
      · rw [capsOf_forward] at hcap
        cases hcap
      · rw [capsOf_quotaFwd] at hcap
        cases hcap
      · exact .inl ⟨cap, hcap, hstruck⟩
      · exact .inr (deadly_eq_true_iff.2 ⟨cap, hcap, hstruck⟩)
  · have hchain : Kind.comb.chain = .quotaComb := rfl
    cases hdead : deadly env packet spent kind <;>
      simp [reached, hdead, count_replicate, hcomb, hchain]
  · intro hdropped
    rw [Bool.or_eq_false_iff] at hdropped
    rw [hband hdropped.1, startBand, if_pos hbuilds, reached, hdropped.1,
      if_neg (by decide)]
    simp only [cons_append, nil_append, flatMap_cons,
      flatMap_append, flatMap_nil, capsOf_forward, capsOf_quotaFwd,
      append_nil, lastBand_append, lastBand_replicate _ htimes]

/-- Without quota rules a packet passes. -/
theorem follows_of_not_builds (hbuilds : ¬ builds env = true)
    (appliesTo : Cap → Bool) (spent : Oracle) :
    ∃ walk dropped, forward env packet spent = some (walk, dropped) ∧
      Follows appliesTo env packet spent walk dropped := by
  have hrules : familyRules env .ipv4 = [] := by
    rw [familyRules, iptQuotas, if_neg hbuilds]
    rfl
  refine ⟨⟨packet.mark, [.forward]⟩, false, ?_, ?_, ?_, ?_⟩
  · rw [forward, hrules]
    rfl
  · simp [capsOf_forward]
  · simp
  · simp [capsOf_forward, lastBand, startBand, hbuilds]

/-- Readings of the records that agree on the caps in question. -/
theorem Follows.congr {walk : Walk Chain} {dropped : Bool}
    (hsame : ∀ chain ∈ walk.entered, ∀ cap ∈ capsOf env chain,
      appliesTo cap = other cap)
    (hfollows : Follows appliesTo env packet spent walk dropped) :
    Follows other env packet spent walk dropped := by
  have hfilter : (walk.entered.flatMap (capsOf env)).filter
      (slowed appliesTo env spent) =
      (walk.entered.flatMap (capsOf env)).filter (slowed other env spent) := by
    refine filter_congr fun cap hcap => ?_
    obtain ⟨chain, hchain, hcap⟩ := mem_flatMap.1 hcap
    rw [slowed, slowed, hsame chain hchain cap hcap]
  refine ⟨hfollows.dropped_iff.trans ?_, hfollows.combined_once, ?_⟩
  · constructor <;> rintro ⟨chain, hchain, cap, hcap, hstruck⟩ <;>
      refine ⟨chain, hchain, cap, hcap, ?_⟩ <;>
      simpa only [struck, hsame chain hchain cap hcap] using hstruck
  · intro hdropped
    rw [hfollows.band_eq hdropped, lastBand, lastBand, hfilter]

/-! ## One cap over -/

def onlyOver (cap : Cap) : Oracle :=
  fun idx kind => idx = cap.1.idx && kind = cap.2

theorem eq_of_onlyOver {cap found : Cap} (hcap : cap.1 ∈ env.accepted)
    (hfound : found.1 ∈ env.accepted)
    (hover : onlyOver cap found.1.idx found.2 = true) : found = cap := by
  simp only [onlyOver, Bool.and_eq_true, decide_eq_true_eq] at hover
  have hnodup : (env.accepted.map QuotaRule.idx).Nodup :=
    pairwise_map.2 ((pairwise_idx_numberRules 1 _).imp Nat.ne_of_lt)
  exact Prod.ext (inj_on_of_nodup_map hnodup hfound hcap hover.1) hover.2

variable {cap : Cap} {walk : Walk Chain} {dropped : Bool}

/-- With a single cap over, the outcome tells whether the cap applies. -/
theorem Follows.of_onlyOver (hcap : cap ∈ capsOf env cap.2.chain)
    (hentered : cap.2.chain ∈ walk.entered)
    (hfollows : Follows appliesTo env packet (onlyOver cap) walk dropped) :
    (dropped = true ↔
      appliesTo cap = true ∧ overBand env cap.1 cap.2 = false) ∧
    (overBand env cap.1 cap.2 = true → (fields walk.mark).band =
      if appliesTo cap then BitVec.ofNat 8 cap.1.idx
      else startBand env packet) := by
  have hself : onlyOver cap cap.1.idx cap.2 = true := by simp [onlyOver]
  have honly : ∀ chain, ∀ found ∈ capsOf env chain,
      onlyOver cap found.1.idx found.2 = true → found = cap :=
    fun chain found hfound => eq_of_onlyOver (mem_capsOf.1 hcap).1
      (mem_capsOf.1 hfound).1
  have hdropped : dropped = true ↔
      appliesTo cap = true ∧ overBand env cap.1 cap.2 = false := by
    rw [hfollows.dropped_iff]
    constructor
    · rintro ⟨chain, -, found, hfound, hstruck⟩
      simp only [struck, Bool.and_eq_true, Bool.not_eq_true'] at hstruck
      obtain rfl := honly chain found hfound hstruck.1.2
      exact ⟨hstruck.1.1, hstruck.2⟩
    · rintro ⟨happlies, hband⟩
      exact ⟨cap.2.chain, hentered, cap, hcap,
        by simp [struck, happlies, hself, hband]⟩
  refine ⟨hdropped, fun hband => ?_⟩
  have halive : dropped = false := by
    by_contra hdead
    have hblocks := (hdropped.1 (by simpa using hdead)).2
    rw [hband] at hblocks
    cases hblocks
  rw [hfollows.band_eq halive, lastBand]
  cases happlies : appliesTo cap with
  | false =>
    have hnone : (walk.entered.flatMap (capsOf env)).filter
        (slowed appliesTo env (onlyOver cap)) = [] := by
      refine filter_eq_nil_iff.2 fun found hfound hslowed => ?_
      obtain ⟨chain, -, hfound⟩ := mem_flatMap.1 hfound
      simp only [slowed, Bool.and_eq_true] at hslowed
      obtain rfl := honly chain found hfound hslowed.1.2
      rw [happlies] at hslowed
      cases hslowed.1.1
    rw [hnone]
    rfl
  | true =>
    have hmem : cap ∈ (walk.entered.flatMap (capsOf env)).filter
        (slowed appliesTo env (onlyOver cap)) := by
      refine mem_filter.2 ⟨mem_flatMap.2 ⟨_, hentered, hcap⟩, ?_⟩
      simp [slowed, happlies, hself, hband]
    obtain ⟨last, hlast⟩ := Option.isSome_iff_exists.1
      (getLast?_isSome.2 (ne_nil_of_mem hmem))
    obtain ⟨hfound, hslowed⟩ := mem_filter.1 (mem_of_getLast? hlast)
    obtain ⟨chain, -, hfound⟩ := mem_flatMap.1 hfound
    simp only [slowed, Bool.and_eq_true] at hslowed
    rw [hlast, honly chain last hfound hslowed.1.2]
    rfl

theorem ofNat_idx_ne_startBand (packet : Packet) (hbuilds : builds env = true)
    (haccepted : cap.1 ∈ env.accepted)
    (hband : overBand env cap.1 cap.2 = true) :
    BitVec.ofNat 8 cap.1.idx ≠ startBand env packet := by
  obtain ⟨hmax, hfree⟩ := idx_le_of_overBand hband
  have hpositive := (le_idx_of_mem_numberRules haccepted).1
  rw [startBand, if_pos hbuilds, clearedBand, if_pos hfree]
  intro hzero
  have hvalue : cap.1.idx % 256 = 0 := by
    simpa using congrArg BitVec.toNat hzero
  simp only [quotaMarkBandMax] at hmax
  omega

/-- The chain of a cap is entered if no other cap is over. -/
theorem mem_reached_onlyOver (huses : packet.Uses env kind) {times : ℕ}
    (htimes : times ≠ 0)
    (hcap : cap ∈ capsOf env kind.chain ++ capsOf env Kind.comb.chain) :
    cap.2.chain ∈ reached env packet (onlyOver cap) kind times := by
  rw [mem_reached htimes]
  rcases mem_append.1 hcap with hcap | hcap
  · exact .inl (mem_capsOf.1 hcap).2.2
  refine .inr ⟨?_, (mem_capsOf.1 hcap).2.2⟩
  rw [Bool.eq_false_iff, Ne, deadly_eq_true_iff]
  rintro ⟨found, hfound, hstruck⟩
  simp only [struck, Bool.and_eq_true] at hstruck
  obtain rfl := eq_of_onlyOver (mem_capsOf.1 hcap).1 (mem_capsOf.1 hfound).1
    hstruck.1.2
  refine ne_comb_of_uses huses (chain_injective ?_)
  rw [← (mem_capsOf.1 hfound).2.2, (mem_capsOf.1 hcap).2.2]

end

/-- The outcomes with a single cap over tell the addresses that were kept. -/
theorem applies_eq_of_markSemantics {env : Env} {packet : Packet}
    (hsemantics : MarkSemantics env packet) (hbuilds : builds env = true)
    {kind : Kind} (huses : packet.Uses env kind) {cap : Cap}
    (hcap : cap ∈ capsOf env kind.chain ++ capsOf env Kind.comb.chain) :
    applies QuotaRule.listedAddrs env packet cap =
      applies QuotaRule.addrs env packet cap := by
  obtain ⟨walk, dropped, hrun, ⟨times, htimes, hentered⟩, hkept⟩ :=
    follows_of_builds hbuilds huses (onlyOver cap)
  obtain ⟨walk', dropped', hrun', hlisted⟩ :=
    hsemantics ⟨kind, huses⟩ (onlyOver cap)
  rw [hrun, Option.some.injEq, Prod.mk.injEq] at hrun'
  obtain ⟨rfl, rfl⟩ := hrun'
  have hchain : cap.2.chain ∈ walk.entered := by
    rw [hentered]
    exact mem_append_right _ (mem_reached_onlyOver huses htimes hcap)
  have hself : cap ∈ capsOf env cap.2.chain := by
    rcases mem_append.1 hcap with hcap | hcap <;>
      exact (mem_capsOf.1 hcap).2.2 ▸ hcap
  obtain ⟨hdropKept, hbandKept⟩ := hkept.of_onlyOver hself hchain
  obtain ⟨hdropListed, hbandListed⟩ := hlisted.of_onlyOver hself hchain
  cases hband : overBand env cap.1 cap.2 with
  | false =>
    have hsame := hdropListed.symm.trans hdropKept
    exact Bool.eq_iff_iff.2 (by simpa [hband] using hsame)
  | true =>
    have hne := ofNat_idx_ne_startBand packet hbuilds
      (mem_capsOf.1 hself).1 hband
    have hsame := (hbandListed hband).symm.trans (hbandKept hband)
    cases hl : applies QuotaRule.listedAddrs env packet cap <;>
      cases hk : applies QuotaRule.addrs env packet cap <;>
      simp_all

/-- The chains treat a packet as the records say exactly when, for every cap
of the chains it can enter, the addresses that were kept match it as the listed
ones do. -/
theorem markSemantics_iff (env : Env) (packet : Packet) :
    MarkSemantics env packet ↔
      (builds env = true → ∀ kind, packet.Uses env kind →
        ∀ cap ∈ capsOf env kind.chain ++ capsOf env Kind.comb.chain,
          applies QuotaRule.listedAddrs env packet cap =
            applies QuotaRule.addrs env packet cap) := by
  constructor
  · intro hsemantics hbuilds kind huses cap hcap
    exact applies_eq_of_markSemantics hsemantics hbuilds huses hcap
  rintro hcondition ⟨kind, huses⟩ spent
  by_cases hbuilds : builds env = true
  swap
  · exact follows_of_not_builds hbuilds _ spent
  obtain ⟨walk, dropped, hrun, ⟨times, htimes, hentered⟩, hkept⟩ :=
    follows_of_builds hbuilds huses spent
  refine ⟨walk, dropped, hrun, hkept.congr fun chain hchain cap hcap => ?_⟩
  refine (hcondition hbuilds kind huses cap ?_).symm
  simp only [hentered, cons_append, nil_append, mem_cons,
    mem_reached htimes] at hchain
  rcases hchain with rfl | rfl | rfl | ⟨-, rfl⟩
  · rw [capsOf_forward] at hcap
    cases hcap
  · rw [capsOf_quotaFwd] at hcap
    cases hcap
  · exact mem_append_left _ hcap
  · exact mem_append_right _ hcap

/-! ## A list that is too long -/

/-- The addresses from 10.0.0.10 to 10.0.0.74. -/
def longList : Bytes :=
  [44].intercalate ((range 65).map fun number =>
    bytes "10.0.0." ++
      [digitChar (number / 10 + 1), digitChar (number % 10)])

/-- One download cap for all of them together. -/
def longListEnv : Env :=
  .router [(bytes "quota_enable", bytes "1"),
    (bytes "quota_rules",
      bytes "1<SHARED:" ++ longList ++ bytes "<1000<<<day<<<<0<<0<0<1")]

/-- A packet from the WAN for the last address. -/
def longListPacket : Packet where
  inFace := bytes "eth0"
  outFace := bytes "br0"
  mark := 0
  matchesAddr text := text = bytes " -d 10.0.0.74"

theorem markSemantics_longList_fails :
    ¬ MarkSemantics longListEnv longListPacket := by
  intro hsemantics
  have hbuilds : builds longListEnv = true := by decide
  have hfaces : hookedFaces longListEnv = [bytes "eth0"] := by decide
  have huses : longListPacket.Uses longListEnv .down := by
    rw [Packet.Uses, hfaces]
    refine ⟨by decide, fun face hface other hother => ?_⟩
    rw [mem_singleton] at hface
    subst hface
    cases other with
    | down => exact absurd rfl hother
    | up => decide
    | comb => rfl
  have hcaps : ∃ cap ∈ capsOf longListEnv Kind.down.chain,
      applies QuotaRule.listedAddrs longListEnv longListPacket cap = true ∧
      applies QuotaRule.addrs longListEnv longListPacket cap = false := by
    decide +kernel
  obtain ⟨cap, hcap, hlisted, hkept⟩ := hcaps
  have hsame := applies_eq_of_markSemantics hsemantics hbuilds huses
    (mem_append_left _ hcap)
  rw [hlisted, hkept] at hsame
  cases hsame

end Tomato64.QuotaRules
