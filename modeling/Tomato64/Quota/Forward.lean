import Tomato64.Quota.Marks

/-!
# Forwarded packets

`FORWARD` clears the marks and enters `quota_fwd`.  That chain has four rules
for every WAN interface: two enter the chain of a direction, two mark the
packet for the combined chain, which follows at the end.  Packets with the
death mark are dropped behind it.
-/

namespace Tomato64.QuotaRules

open Chains List Text

/-- The packet comes in or goes out by this interface. -/
def Packet.hits (packet : Packet) (kind : Kind) (face : Bytes) : Bool :=
  match kind with
  | .down => faceMatches face packet.inFace
  | .up => faceMatches face packet.outFace
  | .comb => false

variable (face : Bytes)

def forwardRules : List (Rule Chain Test) :=
  chainRules ((faceLines face).map Line.rule) .quotaFwd

section
variable {env : Env} {packet : Packet} {spent : Oracle} {kind : Kind}

def deadly (env : Env) (packet : Packet) (spent : Oracle) (kind : Kind) : Bool :=
  (capsOf env kind.chain).any
    (struck (applies QuotaRule.addrs env packet) env spent)

/-- The fields after the chain of a kind has been run once or more. -/
def pass (env : Env) (packet : Packet) (spent : Oracle) (kind : Kind)
    (old : Fields) : Fields :=
  { old with
    explicit := matched QuotaRule.addrs env packet kind
    combined := old.combined || !deadly env packet spent kind
    death := deadly env packet spent kind
    band := lastBand (applies QuotaRule.addrs env packet) env spent
      (capsOf env kind.chain) old.band }

theorem pass_idem (old : Fields) :
    pass env packet spent kind (pass env packet spent kind old) =
      pass env packet spent kind old := by
  simp [pass, lastBand_idem]

theorem pass_hit (old : Fields) :
    (pass env packet spent kind old).hit = old.hit := rfl

theorem pass_explicit (old : Fields) :
    (pass env packet spent kind old).explicit =
      matched QuotaRule.addrs env packet kind := rfl

/-- A mark on its way through `quota_fwd`. -/
structure Underway (env : Env) (packet : Packet) (kind : Kind)
    (mark : Mark) : Prop where
  hit : (fields mark).hit = false
  explicit : (fields mark).explicit = true →
    matched QuotaRule.addrs env packet kind = true

variable {enter : Chain → Walk Chain → Option (Walk Chain × Bool)}

theorem forwardRules_eq :
    forwardRules face =
      [⟨.quotaFwd, [.outFace face, .mark 0 quotaMarkDeath], .jump .quotaOut⟩,
        ⟨.quotaFwd, [.inFace face, .mark 0 quotaMarkDeath], .jump .quotaIn⟩,
        ⟨.quotaFwd, [.outFace face, .mark 0 quotaMarkDeath],
          .setMark quotaMarkCombined quotaMarkCombined⟩,
        ⟨.quotaFwd, [.inFace face, .mark 0 quotaMarkDeath],
          .setMark quotaMarkCombined quotaMarkCombined⟩] := rfl

theorem applies_outFace (target : Target Chain) (mark : Mark) :
    Rule.applies (holds packet spent)
        ⟨.quotaFwd, [.outFace face, .mark 0 quotaMarkDeath], target⟩ mark =
      (faceMatches face packet.outFace && !(fields mark).death) := by
  simp [Rule.applies, holds, markIs_alive]

theorem applies_inFace (target : Target Chain) (mark : Mark) :
    Rule.applies (holds packet spent)
        ⟨.quotaFwd, [.inFace face, .mark 0 quotaMarkDeath], target⟩ mark =
      (faceMatches face packet.inFace && !(fields mark).death) := by
  simp [Rule.applies, holds, markIs_alive]

variable {walk : Walk Chain}

/-- A dead packet, or one of another interface, is left alone. -/
theorem runRules_forwardRules_of_skip {face : Bytes}
    (hskip : (fields walk.mark).death = true ∨
      faceMatches face packet.inFace = false ∧
        faceMatches face packet.outFace = false)
    (rest : List (Rule Chain Test)) :
    runRules (holds packet spent) enter (forwardRules face ++ rest) walk =
      runRules (holds packet spent) enter rest walk := by
  have hout : (faceMatches face packet.outFace &&
      !(fields walk.mark).death) = false := by
    rcases hskip with hdead | ⟨-, hout⟩
    · simp [hdead]
    · simp [hout]
  have hin : (faceMatches face packet.inFace &&
      !(fields walk.mark).death) = false := by
    rcases hskip with hdead | ⟨hin, -⟩
    · simp [hdead]
    · simp [hin]
  rw [forwardRules_eq]
  simp only [cons_append, nil_append]
  rw [runRules_cons_of_not_applies (by rw [applies_outFace, hout]),
    runRules_cons_of_not_applies (by rw [applies_inFace, hin]),
    runRules_cons_of_not_applies (by rw [applies_outFace, hout]),
    runRules_cons_of_not_applies (by rw [applies_inFace, hin])]

/-- The mark for the combined chain, on a packet that is still alive. -/
def flagCombined (mark : Mark) : Mark :=
  if (fields mark).death then mark
  else setMark quotaMarkCombined quotaMarkCombined mark

theorem runRules_flag {entry : Rule Chain Test}
    (htarget : entry.target = .setMark quotaMarkCombined quotaMarkCombined)
    (happlies : entry.applies (holds packet spent) walk.mark =
      !(fields walk.mark).death) (rest : List (Rule Chain Test)) :
    runRules (holds packet spent) enter (entry :: rest) walk =
      runRules (holds packet spent) enter rest
        { walk with mark := flagCombined walk.mark } := by
  cases hdead : (fields walk.mark).death with
  | true =>
    rw [runRules_cons_of_not_applies (by rw [happlies, hdead]; rfl),
      flagCombined, hdead, if_pos rfl]
  | false =>
    rw [runRules_setMark htarget (by rw [happlies, hdead]; rfl),
      flagCombined, hdead, if_neg (by decide)]

theorem fields_flagCombined_chain (hbuilds : builds env = true) {mark : Mark}
    (hunderway : Underway env packet kind mark)
    (halive : (fields mark).death = false) :
    fields (flagCombined (runMarks (holds packet spent)
        (chainRules (familyRules env .ipv4) kind.chain) mark)) =
      pass env packet spent kind (fields mark) := by
  have hchain : fields (runMarks (holds packet spent)
      (chainRules (familyRules env .ipv4) kind.chain) mark) = _ :=
    fields_runMarks_chain hbuilds hunderway.hit hunderway.explicit
  rw [halive, Bool.false_or, ← deadly] at hchain
  cases hdead : deadly env packet spent kind with
  | true =>
    rw [hdead] at hchain
    rw [flagCombined, if_pos (by rw [hchain]), hchain]
    simp [pass, hdead]
  | false =>
    rw [hdead] at hchain
    rw [flagCombined, if_neg (by rw [hchain]; simp), fields_setMark,
      fields_combined, hchain]
    simp [Fields.write, and_full, pass, hdead]

/-- A live packet of the interface enters the chain of its direction, and is
marked for the combined chain if it is still alive. -/
theorem runRules_forwardRules_of_hits (hbuilds : builds env = true)
    {face : Bytes} (hhits : packet.hits kind face = true)
    (hother : ∀ other, other ≠ kind → packet.hits other face = false)
    (halive : (fields walk.mark).death = false) (depth : ℕ)
    (rest : List (Rule Chain Test)) :
    runRules (holds packet spent)
        (runChain (holds packet spent) (familyRules env .ipv4) (depth + 1))
        (forwardRules face ++ rest) walk =
      runRules (holds packet spent)
        (runChain (holds packet spent) (familyRules env .ipv4) (depth + 1))
        rest ⟨flagCombined (runMarks (holds packet spent)
          (chainRules (familyRules env .ipv4) kind.chain) walk.mark),
            walk.entered ++ [kind.chain]⟩ := by
  rw [forwardRules_eq]
  simp only [cons_append, nil_append]
  cases kind with
  | down =>
    have hin : faceMatches face packet.inFace = true := hhits
    have hout : faceMatches face packet.outFace = false :=
      hother .up (by decide)
    rw [runRules_cons_of_not_applies (by rw [applies_outFace, hout]; rfl),
      runRules_jump rfl (by rw [applies_inFace, hin, halive]; rfl)
        (runChain_kind hbuilds .down depth walk),
      runRules_cons_of_not_applies (by rw [applies_outFace, hout]; rfl),
      runRules_flag rfl (by rw [applies_inFace, hin, Bool.true_and])]
  | up =>
    have hout : faceMatches face packet.outFace = true := hhits
    have hin : faceMatches face packet.inFace = false :=
      hother .down (by decide)
    rw [runRules_jump rfl (by rw [applies_outFace, hout, halive]; rfl)
        (runChain_kind hbuilds .up depth walk),
      runRules_cons_of_not_applies (by rw [applies_inFace, hin]; rfl),
      runRules_flag rfl (by rw [applies_outFace, hout, Bool.true_and]),
      runRules_cons_of_not_applies (by rw [applies_inFace, hin]; rfl)]
  | comb => cases hhits

theorem runRules_faces_of_dead (faces : List Bytes)
    (hdead : (fields walk.mark).death = true) (rest : List (Rule Chain Test)) :
    runRules (holds packet spent) enter (faces.flatMap forwardRules ++ rest)
        walk = runRules (holds packet spent) enter rest walk := by
  induction faces with
  | nil => rfl
  | cons face faces ih =>
    rw [flatMap_cons, append_assoc,
      runRules_forwardRules_of_skip (.inl hdead), ih]

/-- All interfaces.  The chain of the direction is run at least once if the
packet uses one of them. -/
theorem runRules_faces (hbuilds : builds env = true) (spent : Oracle)
    {faces : List Bytes} (hother : ∀ face ∈ faces, ∀ other, other ≠ kind →
      packet.hits other face = false)
    (walk : Walk Chain) (hunderway : Underway env packet kind walk.mark)
    (halive : (fields walk.mark).death = false) (depth : ℕ)
    (rest : List (Rule Chain Test)) :
    ∃ times mark,
      fields mark = (if times = 0 then fields walk.mark
        else pass env packet spent kind (fields walk.mark)) ∧
      (faces.any (packet.hits kind) = true → times ≠ 0) ∧
      runRules (holds packet spent)
          (runChain (holds packet spent) (familyRules env .ipv4) (depth + 1))
          (faces.flatMap forwardRules ++ rest) walk =
        runRules (holds packet spent)
          (runChain (holds packet spent) (familyRules env .ipv4) (depth + 1))
          rest ⟨mark, walk.entered ++ replicate times kind.chain⟩ := by
  induction faces generalizing walk with
  | nil => exact ⟨0, walk.mark, rfl, by simp, by simp⟩
  | cons face faces ih =>
    rw [forall_mem_cons] at hother
    rw [flatMap_cons, append_assoc]
    cases hhits : packet.hits kind face with
    | false =>
      have hnone : ∀ other, packet.hits other face = false := by
        intro other
        by_cases hkind : other = kind
        · rw [hkind, hhits]
        · exact hother.1 other hkind
      obtain ⟨times, mark, hfields, htimes, hrun⟩ :=
        ih hother.2 walk hunderway halive
      refine ⟨times, mark, hfields, ?_, ?_⟩
      · simpa [hhits] using htimes
      · rw [runRules_forwardRules_of_skip (.inr ⟨hnone .down, hnone .up⟩), hrun]
    | true =>
      rw [runRules_forwardRules_of_hits hbuilds hhits hother.1 halive]
      have hpass := @fields_flagCombined_chain _ _ spent _ hbuilds _ hunderway
        halive
      revert hpass
      generalize flagCombined _ = next
      intro hpass
      cases hdead : (fields next).death with
      | true =>
        refine ⟨1, next, hpass, by simp, ?_⟩
        rw [@runRules_faces_of_dead _ _ _ ⟨next, _⟩ faces hdead, replicate_one]
      | false =>
        have hunderway' : Underway env packet kind next := by
          constructor
          · rw [hpass, pass_hit, hunderway.hit]
          · rw [hpass, pass_explicit]
            exact id
        obtain ⟨times, mark, hfields, -, hrun⟩ :=
          ih hother.2 ⟨next, _⟩ hunderway' hdead
        refine ⟨times + 1, mark, ?_, by simp, ?_⟩
        · rw [hfields, hpass, pass_idem, ite_self,
            if_neg (Nat.succ_ne_zero times)]
        · rw [hrun, append_assoc, singleton_append, ← replicate_succ]

end

/-! ## The whole table -/

section
variable {env : Env}

theorem chainRules_other (hbuilds : builds env = true) {chain : Chain}
    (hchain : ∀ kind : Kind, kind.chain ≠ chain) :
    chainRules (familyRules env .ipv4) chain =
      chainRules ((entryLines (clearmask env) (hookedFaces env)).map
          Line.rule) chain ++
        chainRules (enforcementLines.map Line.rule) chain := by
  have hflags : ∀ rule : QuotaRule,
      chainRules ((flagLines rule).map Line.rule) chain = [] := by
    intro rule
    refine chainRules_eq_nil _ fun entry hentry => ?_
    simp only [flagLines, iptWrite, map_flatMap, mem_flatMap, map_cons, map_nil,
      mem_cons, not_mem_nil, or_false] at hentry
    obtain ⟨_, -, rfl | rfl | rfl | rfl⟩ := hentry
    · exact hchain .up
    · exact hchain .comb
    · exact hchain .down
    · exact hchain .comb
  have hcaps : ∀ (rule : QuotaRule) (kind : Kind),
      chainRules ((capLines env rule kind).map Line.rule) chain = [] := by
    intro rule kind
    refine chainRules_eq_nil _ fun entry hentry => ?_
    obtain ⟨line, hline, rfl⟩ := mem_map.1 hentry
    rw [(chain_of_mem_capLines hline).1]
    exact hchain kind
  have hnone : ∀ {α : Type} (values : List α),
      values.flatMap (fun _ => ([] : List (Rule Chain Test))) = [] :=
    fun _ => flatMap_eq_nil_iff.2 fun _ _ => rfl
  rw [familyRules, iptQuotas, if_pos hbuilds]
  simp only [map_append, map_flatMap, chainRules_append,
    chainRules_flatMap, hflags, hcaps, hnone, append_nil]

theorem chainRules_forward (hbuilds : builds env = true) :
    chainRules (familyRules env .ipv4) .forward =
      [⟨.forward, [], .setMark 0 (clearmask env)⟩,
        ⟨.forward, [], .jump .quotaFwd⟩,
        ⟨.forward, [.mark quotaMarkDeath quotaMarkDeath], .drop⟩] := by
  have hfaces : ∀ face : Bytes,
      chainRules ((faceLines face).map Line.rule) .forward = [] :=
    fun _ => rfl
  rw [chainRules_other hbuilds fun kind => by cases kind <;> decide, entryLines]
  simp only [map_append, map_flatMap, chainRules_append,
    chainRules_flatMap, hfaces]
  simp [chainRules, ip46tWrite, enforcementLines]

theorem chainRules_quotaFwd (hbuilds : builds env = true) :
    chainRules (familyRules env .ipv4) .quotaFwd =
      (hookedFaces env).flatMap forwardRules ++
        [⟨.quotaFwd, [.mark quotaMarkCombined quotaMarkCombined],
            .jump .quotaComb⟩,
          ⟨.quotaFwd, [], .setMark 0 quotaMarkCombined⟩] := by
  have hfaces : ∀ face : Bytes,
      chainRules ((faceLines face).map Line.rule) .quotaFwd =
        forwardRules face := fun _ => rfl
  rw [chainRules_other hbuilds fun kind => by cases kind <;> decide, entryLines]
  simp only [map_append, map_flatMap, chainRules_append,
    chainRules_flatMap, hfaces]
  simp [chainRules, ip46tWrite, enforcementLines]

end

/-! ## A forwarded packet -/

section
variable {env : Env} {packet : Packet} {spent : Oracle} {kind : Kind}

/-- The chains behind `quota_fwd` that the packet enters. -/
def reached (env : Env) (packet : Packet) (spent : Oracle) (kind : Kind)
    (times : ℕ) : List Chain :=
  replicate times kind.chain ++
    if deadly env packet spent kind then [] else [Kind.comb.chain]

theorem matched_comb (hmatched : matched QuotaRule.addrs env packet kind = true) :
    matched QuotaRule.addrs env packet .comb = true := by
  simp only [matched, Packet.matchesAny, addrTexts, any_eq_true,
    mem_flatMap, mem_map] at hmatched ⊢
  obtain ⟨rule, hrule, text, ⟨addr, haddr, dir, -, htext⟩, hmatch⟩ := hmatched
  exact ⟨rule, hrule, text, ⟨addr, haddr, dir, by cases dir <;> decide, htext⟩,
    hmatch⟩

/-- The end of `quota_fwd`. -/
theorem runRules_combined (hbuilds : builds env = true) (walk : Walk Chain)
    {band : BitVec 8} (hpass : fields walk.mark = pass env packet spent kind
      ⟨false, false, false, false, band⟩) (depth : ℕ) :
    ∃ mark, (fields mark).death = (deadly env packet spent kind ||
        deadly env packet spent .comb) ∧ (deadly env packet spent kind = false →
        (fields mark).band = lastBand (applies QuotaRule.addrs env packet) env
          spent (capsOf env kind.chain ++ capsOf env Kind.comb.chain) band) ∧
      runRules (holds packet spent)
          (runChain (holds packet spent) (familyRules env .ipv4) (depth + 1))
          [⟨.quotaFwd, [.mark quotaMarkCombined quotaMarkCombined],
              .jump .quotaComb⟩,
            ⟨.quotaFwd, [], .setMark 0 quotaMarkCombined⟩] walk =
        some (⟨mark, walk.entered ++ if deadly env packet spent kind then []
          else [Kind.comb.chain]⟩, false) := by
  have hcombined : Rule.applies (holds packet spent)
      ⟨Chain.quotaFwd, [.mark quotaMarkCombined quotaMarkCombined],
        .jump Chain.quotaComb⟩ walk.mark = !deadly env packet spent kind := by
    simp [Rule.applies, holds, markIs_combined, hpass, pass]
  cases hdead : deadly env packet spent kind with
  | true =>
    refine ⟨setMark 0 quotaMarkCombined walk.mark, ?_, by simp, ?_⟩
    · rw [fields_clearCombined, hpass]
      simpa [pass] using hdead
    · rw [runRules_cons_of_not_applies (by rw [hcombined, hdead]; rfl),
        runRules_setMark rfl rfl, runRules]
      simp
  | false =>
    have hunderway : Underway env packet .comb walk.mark := by
      constructor
      · rw [hpass, pass_hit]
      · rw [hpass, pass_explicit]
        exact matched_comb
    have hchain : fields (runMarks (holds packet spent)
        (chainRules (familyRules env .ipv4) Kind.comb.chain) walk.mark) = _ :=
      fields_runMarks_chain hbuilds hunderway.hit hunderway.explicit
    refine ⟨setMark 0 quotaMarkCombined (runMarks (holds packet spent)
      (chainRules (familyRules env .ipv4) Kind.comb.chain) walk.mark),
      ?_, fun _ => ?_, ?_⟩
    · rw [fields_clearCombined, hchain, hpass, ← deadly]
      simp [pass, hdead]
    · rw [fields_clearCombined, hchain, hpass, lastBand_append]
      rfl
    · rw [runRules_jump rfl (by rw [hcombined, hdead]; rfl)
        (runChain_kind hbuilds .comb depth walk), runRules_setMark rfl rfl,
        runRules]
      simp

/-- The packet passes a hooked interface, in this direction only. -/
def Packet.Uses (packet : Packet) (env : Env) (kind : Kind) : Prop :=
  (hookedFaces env).any (packet.hits kind) = true ∧
    ∀ face ∈ hookedFaces env, ∀ other, other ≠ kind →
      packet.hits other face = false

theorem runChain_quotaFwd (hbuilds : builds env = true)
    (huses : packet.Uses env kind) (spent : Oracle) (walk : Walk Chain)
    {band : BitVec 8} (hfresh : fields walk.mark = ⟨false, false, false, false, band⟩)
    (depth : ℕ) :
    ∃ times mark, times ≠ 0 ∧
      (fields mark).death = (deadly env packet spent kind ||
        deadly env packet spent .comb) ∧ (deadly env packet spent kind = false →
        (fields mark).band = lastBand (applies QuotaRule.addrs env packet) env
          spent (capsOf env kind.chain ++ capsOf env Kind.comb.chain) band) ∧
      runChain (holds packet spent) (familyRules env .ipv4) (depth + 2) .quotaFwd
          walk =
        some (⟨mark, walk.entered ++ [.quotaFwd] ++
          reached env packet spent kind times⟩, false) := by
  have hunderway : Underway env packet kind walk.mark := by
    constructor <;> simp [hfresh]
  obtain ⟨times, mark, hfields, htimes, hrun⟩ :=
    runRules_faces hbuilds spent huses.2
      ⟨walk.mark, walk.entered ++ [.quotaFwd]⟩ hunderway (by rw [hfresh]) depth
      [⟨.quotaFwd, [.mark quotaMarkCombined quotaMarkCombined],
          .jump .quotaComb⟩, ⟨.quotaFwd, [], .setMark 0 quotaMarkCombined⟩]
  have hne := htimes huses.1
  rw [if_neg hne, hfresh] at hfields
  obtain ⟨last, hdeath, hband, htail⟩ := runRules_combined hbuilds
    (Walk.mk mark (walk.entered ++ [.quotaFwd] ++
      replicate times kind.chain)) hfields depth
  refine ⟨times, last, hne, hdeath, hband, ?_⟩
  rw [runChain, chainRules_quotaFwd hbuilds, hrun, htail, reached, append_assoc]

/-- The run of a forwarded packet: it enters the chain of its direction, and
the combined chain unless it is dead by then. -/
theorem forward_eq (hbuilds : builds env = true)
    (huses : packet.Uses env kind) (spent : Oracle) :
    ∃ times mark, times ≠ 0 ∧ (deadly env packet spent kind = false →
        (fields mark).band = lastBand (applies QuotaRule.addrs env packet) env
          spent (capsOf env kind.chain ++ capsOf env Kind.comb.chain)
          (clearedBand env packet.mark)) ∧
      forward env packet spent =
        some (⟨mark, [.forward, .quotaFwd] ++
          reached env packet spent kind times⟩,
          deadly env packet spent kind || deadly env packet spent .comb) := by
  obtain ⟨times, mark, hne, hdeath, hband, hrun⟩ :=
    runChain_quotaFwd hbuilds huses spent
      (Walk.mk (setMark 0 (clearmask env) packet.mark) [.forward])
      (fields_clear env packet.mark) 0
  refine ⟨times, mark, hne, hband, ?_⟩
  rw [forward, chainDepth, runChain, chainRules_forward hbuilds,
    runRules_setMark rfl rfl, ← hdeath]
  refine (runRules_jump rfl rfl hrun _).trans ?_
  cases hdead : (fields mark).death with
  | true => simp [runRules, Rule.applies, holds, markIs_death, hdead]
  | false => simp [runRules, Rule.applies, holds, markIs_death, hdead]

end

end Tomato64.QuotaRules
