import Tomato64.Core.Run
import Tomato64.Core.Scan
import Tomato64.Core.Split

/-!
# Policy routing

For each record of `pbr_rules`, `ipt_routerpolicy` writes the lines of
`WAN_PBR` that send the record's packets to the chain of one WAN.  The match
for the source is put together in a buffer that all records share and that
nothing clears; a record for all sources leaves it alone.
-/

namespace Tomato64.Pbr

open List Run Scan Split Text

/-- The number of WANs and the names that can be looked up. -/
structure Env where
  mwanNum : ℕ
  /-- The addresses that `getaddrinfo` finds for a name, or its failure. -/
  getaddrinfo : Bytes → Option (List Bytes)

/-- The fields of a record before the description. -/
structure Record where
  active : Bytes
  proto : Bytes
  srtType : Bytes
  srtAddr : Bytes
  srtPort : Bytes
  dstType : Bytes
  dstAddr : Bytes
  dstPort : Bytes
  wanx : Bytes
deriving DecidableEq

/-- `vstrsep(b, "<", ...)` with the ten fields that a record has at least. -/
def readRecord (text : Bytes) : Option Record :=
  match text.splitOn (ascii '<') with
  | active :: proto :: srtType :: srtAddr :: srtPort :: dstType :: dstAddr ::
      dstPort :: wanx :: _ :: _ =>
      some ⟨active, proto, srtType, srtAddr, srtPort, dstType, dstAddr, dstPort,
        wanx⟩
  | _ => none

/-! ## Lines -/

/-- The texts of `msport` and `mdport` with the ports behind them. -/
def ports (single multi : String) (list : Bytes) : Bytes :=
  if list = [] then []
  else (if ascii ',' ∈ list then bytes multi else bytes single) ++ list

/-- The line for TCP or UDP. -/
def portLine (record : Record) (proto : String) (msrt mdst jump : Bytes) :
    Bytes :=
  bytes "-A WAN_PBR -p " ++ bytes proto ++ bytes " " ++ msrt ++
    ports " --sport " " -m multiport --sports " record.srtPort ++ bytes " " ++
    mdst ++ ports " --dport " " -m multiport --dports " record.dstPort ++
    bytes " -j " ++ jump ++ bytes "\n"

/-- The lines for one destination. -/
def recordLines (record : Record) (msrt mdst jump : Bytes) : List Bytes :=
  let protoNum := atoi record.proto
  if -2 < protoNum then
    if protoNum = 6 ∨ protoNum = 17 ∨ protoNum = -1 then
      (if protoNum ≠ 6 then [portLine record "udp" msrt mdst jump] else []) ++
        if protoNum ≠ 17 then [portLine record "tcp" msrt mdst jump] else []
    else
      [bytes "-A WAN_PBR -p " ++ decimal protoNum.toNat ++ bytes " " ++ msrt ++
        bytes " " ++ mdst ++ bytes " -j " ++ jump ++ bytes "\n"]
  else
    [bytes "-A WAN_PBR " ++ msrt ++ bytes " " ++ mdst ++ bytes " -j " ++ jump ++
      bytes "\n"]

variable (env : Env)

/-- The texts that `mdst` takes: one for each address of a domain. -/
def destinations (record : Record) : List Bytes :=
  if atoi record.dstType = 3 then
    let addresses :=
      if inetPton4 4 record.dstAddr then some [record.dstAddr]
      else env.getaddrinfo record.dstAddr
    (addresses.getD []).map fun address => (bytes "-d " ++ address).take 191
  else if atoi record.dstType ≠ 0 then
    [(bytes "-d " ++ record.dstAddr).take 191]
  else [[]]

/-- The buffer `msrt` behind a record, for its contents before. -/
def sourceMatch (record : Record) (msrt : Bytes) : Bytes :=
  if atoi record.srtType = 1 then
    (bytes "-s " ++ record.srtAddr).take 191
  else if atoi record.srtType = 2 then
    (bytes "-m mac --mac-source " ++ record.srtAddr).take 191
  else msrt

/-- The round of the loop over the records: the buffer `msrt` and the lines. -/
def routeRecord (msrt text : Bytes) : Bytes × List Bytes :=
  match readRecord text with
  | none => (msrt, [])
  | some record =>
    if record.active.head? = some (ascii '1') then
      let msrt := sourceMatch record msrt
      let wanUnit := atoi record.wanx
      if 1 ≤ wanUnit ∧ wanUnit ≤ env.mwanNum then
        let jump := bytes "WAN_" ++ decimal wanUnit.toNat
        (msrt, (destinations env record).flatMap fun mdst =>
          recordLines record msrt mdst jump)
      else (msrt, [])
    else (msrt, [])

/-- The lines of each record of `pbr_rules`, when `stack` is the text that the
buffer happens to hold at the start.  Nothing is written for a single WAN. -/
def routeRecords (stack rules : Bytes) : List (List Bytes) :=
  if env.mwanNum ≤ 1 then []
  else outputs (routeRecord env) stack (rules.splitOn (ascii '>'))

/-! ## Which records write lines -/

/-- The destination of a record has an address: it is not a domain, or the
domain is an address itself or can be looked up. -/
def Record.HasDestination (record : Record) : Prop :=
  atoi record.dstType = 3 → inetPton4 4 record.dstAddr = true ∨
    ∃ addresses, env.getaddrinfo record.dstAddr = some addresses ∧
      addresses ≠ []

/-- A record is enabled and names a WAN and a destination that exist. -/
structure Record.Writes (env : Env) (record : Record) : Prop where
  severalWans : 1 < env.mwanNum
  active : record.active.head? = some (ascii '1')
  wanUnit : 1 ≤ atoi record.wanx ∧ atoi record.wanx ≤ env.mwanNum
  destination : record.HasDestination env

/-- A record is for one address or one MAC. -/
def Record.HasSource (record : Record) : Prop :=
  atoi record.srtType = 1 ∨ atoi record.srtType = 2

section
variable {env : Env} {record : Record}

theorem destinations_eq_nil_iff :
    destinations env record = [] ↔ ¬ record.HasDestination env := by
  rw [destinations, Record.HasDestination]
  by_cases hdomain : atoi record.dstType = 3
  · rw [if_pos hdomain, forall_prop_of_true hdomain]
    cases haddress : inetPton4 4 record.dstAddr with
    | true => simp
    | false =>
      cases hlookup : env.getaddrinfo record.dstAddr with
      | none => simp
      | some addresses => simp
  · rw [if_neg hdomain]
    have hne : (if atoi record.dstType ≠ 0 then
        [(bytes "-d " ++ record.dstAddr).take 191] else [[]]) ≠ [] := by
      split_ifs <;> exact cons_ne_nil _ _
    exact iff_of_false hne (not_not.mpr fun h => absurd h hdomain)

/-- The source match can be read off from the first line. -/
theorem exists_recordLines_eq_cons (record : Record) (mdst jump : Bytes) :
    ∃ front back : Bytes, ∃ more : Bytes → List Bytes, ∀ msrt,
      recordLines record msrt mdst jump =
        (front ++ msrt ++ back) :: more msrt := by
  by_cases hany : -2 < atoi record.proto
  · by_cases hports : atoi record.proto = 6 ∨ atoi record.proto = 17 ∨
        atoi record.proto = -1
    · have hline (proto : String) : ∃ front back : Bytes, ∀ msrt,
          portLine record proto msrt mdst jump = front ++ msrt ++ back := by
        refine ⟨bytes "-A WAN_PBR -p " ++ bytes proto ++ bytes " ",
          ports " --sport " " -m multiport --sports " record.srtPort ++
            bytes " " ++ mdst ++
            ports " --dport " " -m multiport --dports " record.dstPort ++
            bytes " -j " ++ jump ++ bytes "\n", fun msrt => ?_⟩
        simp only [portLine, append_assoc]
      by_cases htcp : atoi record.proto = 6
      · obtain ⟨front, back, hfront⟩ := hline "tcp"
        refine ⟨front, back, fun _ => [], fun msrt => ?_⟩
        simp [recordLines, htcp, hfront]
      obtain ⟨front, back, hfront⟩ := hline "udp"
      refine ⟨front, back, fun msrt => if atoi record.proto ≠ 17 then
        [portLine record "tcp" msrt mdst jump] else [], fun msrt => ?_⟩
      simp only [recordLines, if_pos hany, if_pos hports, if_pos htcp, hfront]
      rfl
    · refine ⟨bytes "-A WAN_PBR -p " ++ decimal (atoi record.proto).toNat ++
          bytes " ", bytes " " ++ mdst ++ bytes " -j " ++ jump ++ bytes "\n",
        fun _ => [], fun msrt => ?_⟩
      simp only [recordLines, if_pos hany, if_neg hports, append_assoc]
  · refine ⟨bytes "-A WAN_PBR ", bytes " " ++ mdst ++ bytes " -j " ++ jump ++
      bytes "\n", fun _ => [], fun msrt => ?_⟩
    simp only [recordLines, if_neg hany, append_assoc]

end

/-! ## Records do not depend on each other -/

section
variable {env : Env}

/-- A round does not read the buffer exactly when its record writes no line or
sets the buffer itself. -/
theorem routeRecord_independent_iff (hwans : 1 < env.mwanNum) (text : Bytes) :
    (∀ msrt other,
      (routeRecord env msrt text).2 = (routeRecord env other text).2) ↔
      ∀ record, readRecord text = some record → record.Writes env →
        record.HasSource := by
  cases hread : readRecord text with
  | none =>
    refine iff_of_true (fun msrt other => ?_) fun record hrecord => ?_
    · simp only [routeRecord, hread]
    · exact absurd hrecord.symm (Option.some_ne_none record)
  | some record =>
    have hsingle : (∀ other, some record = some other → other.Writes env →
        other.HasSource) ↔ (record.Writes env → record.HasSource) := by
      simp only [Option.some.injEq, forall_eq']
    rw [hsingle]
    by_cases hguard : record.active.head? = some (ascii '1') ∧
        1 ≤ atoi record.wanx ∧ atoi record.wanx ≤ env.mwanNum
    · have hlines (msrt : Bytes) : (routeRecord env msrt text).2 =
          (destinations env record).flatMap fun mdst =>
            recordLines record (sourceMatch record msrt) mdst
              (bytes "WAN_" ++ decimal (atoi record.wanx).toNat) := by
        simp only [routeRecord, hread, if_pos hguard.1, if_pos hguard.2]
      simp only [hlines]
      constructor
      · intro hsame hwrites
        by_contra hsource
        -- The buffer stays as it is and shows up in the first line.
        have hkept (msrt : Bytes) : sourceMatch record msrt = msrt := by
          rw [Record.HasSource, not_or] at hsource
          rw [sourceMatch, if_neg hsource.1, if_neg hsource.2]
        obtain ⟨mdst, rest, hmdst⟩ := exists_cons_of_ne_nil
          (destinations_eq_nil_iff.not.mpr (not_not.mpr hwrites.destination))
        obtain ⟨front, back, more, hcons⟩ := exists_recordLines_eq_cons record
          mdst (bytes "WAN_" ++ decimal (atoi record.wanx).toNat)
        have hfirst := hsame [] [0]
        simp only [hmdst, hkept, flatMap_cons, hcons, cons_append,
          List.cons.injEq, append_cancel_right_eq] at hfirst
        have hlength := congrArg List.length hfirst.1
        simp at hlength
      · intro hsource msrt other
        by_cases hdestination : record.HasDestination env
        swap
        · rw [destinations_eq_nil_iff.mpr hdestination]
          rfl
        have hsame :
            sourceMatch record msrt = sourceMatch record other := by
          rw [sourceMatch, sourceMatch]
          rcases hsource ⟨hwans, hguard.1, hguard.2, hdestination⟩ with
            haddress | hmac
          · rw [if_pos haddress, if_pos haddress]
          · rw [hmac]
            rfl
        rw [hsame]
    · refine iff_of_true (fun msrt other => ?_) fun hwrites =>
        absurd ⟨hwrites.active, hwrites.wanUnit⟩ hguard
      have hnothing (msrt : Bytes) : (routeRecord env msrt text).2 = [] := by
        simp only [routeRecord, hread]
        split_ifs with hactive hunit
        · exact absurd ⟨hactive, hunit⟩ hguard
        · rfl
        · rfl
      rw [hnothing, hnothing]

end

/-- The lines of every record, at every position and for everything that the
buffer may hold at the start, are those that it has as the only record. -/
def Independent (rules : Bytes) : Prop :=
  ∀ (stack other : Bytes) (index : ℕ) (text : Bytes),
    (rules.splitOn (ascii '>'))[index]? = some text →
      (routeRecords env stack rules)[index]? = (routeRecords env other text)[0]?

/-- The lines of the records are independent exactly when every record that
writes a line is for one address or one MAC. -/
theorem independent_iff (env : Env) (rules : Bytes) :
    Independent env rules ↔
      ∀ text ∈ rules.splitOn (ascii '>'), ∀ record,
        readRecord text = some record → record.Writes env →
          record.HasSource := by
  by_cases hwans : 1 < env.mwanNum
  · have hblocks (stack text : Bytes) : routeRecords env stack text =
        outputs (routeRecord env) stack (text.splitOn (ascii '>')) :=
      if_neg (Nat.not_le.mpr hwans)
    have halone (text : Bytes) (htext : text ∈ rules.splitOn (ascii '>')) :
        text.splitOn (ascii '>') = [text] :=
      splitOn_eq_singleton (not_mem_of_mem_splitOn htext)
    rw [← forall₂_congr fun text _ => routeRecord_independent_iff hwans text,
      ← outputs_independent_iff]
    refine forall₄_congr fun stack other index text => ?_
    refine imp_congr_right fun hindex => ?_
    rw [hblocks, hblocks, halone text (mem_of_getElem? hindex)]
  · have hnone (stack text : Bytes) : routeRecords env stack text = [] :=
      if_pos (Nat.not_lt.mp hwans)
    refine iff_of_true (fun stack other index text _ => ?_)
      fun _ _ _ _ hwrites => absurd hwrites.severalWans hwans
    rw [hnone, hnone]
    rfl

def twoWans : Env :=
  ⟨2, fun _ => none⟩

/-- A record for the address 192.168.1.100 by the first WAN and one for all
sources by the second WAN. -/
def addressThenAll : Bytes :=
  bytes "1<-2<1<192.168.1.100<<0<<<1<a>1<-2<0<<<0<<<2<b"

/-- The second record sends only the packets of 192.168.1.100 to its WAN. -/
theorem not_independent_addressThenAll :
    (routeRecords twoWans [] addressThenAll)[1]? =
        some [bytes "-A WAN_PBR -s 192.168.1.100  -j WAN_2\n"] ∧
      ¬ Independent twoWans addressThenAll := by
  have hsecond : (routeRecords twoWans [] addressThenAll)[1]? =
      some [bytes "-A WAN_PBR -s 192.168.1.100  -j WAN_2\n"] := by
    decide +kernel
  refine ⟨hsecond, fun hindependent => ?_⟩
  have hsame := hindependent [] [] 1 (bytes "1<-2<0<<<0<<<2<b")
    (by decide)
  rw [hsecond] at hsame
  have halone : (routeRecords twoWans [] (bytes "1<-2<0<<<0<<<2<b"))[0]? =
      some [bytes "-A WAN_PBR   -j WAN_2\n"] := by
    decide +kernel
  rw [halone] at hsame
  exact absurd hsame (by decide)

end Tomato64.Pbr
