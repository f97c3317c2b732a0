import Mathlib.Data.Int.Bitwise
import Tomato64.Core.Writes
import Tomato64.Stats.CstatsTree

/-!
# Loaded and excluded hosts

The tree is ordered by the addresses, so that it holds one node for each of them
and a search finds it.  A record takes the place of the node with its address,
while the file is still being read.  The exclude list is searched for a word
when a host comes in, and is cut at its commas when hosts are taken out.
-/

namespace Tomato64.Cstats

open AvlTree List Run Shared Stats Text Writes

section
variable {state next : State}

/-- A step that has a result has found room. -/
theorem fits_of_step (hindexed : Indexed state) {event : Event}
    (hstep : step state event = .ok next) : Fits state event := by
  cases event with
  | record exclude uptime record =>
    intro haccepted hnone
    rw [step, loadRecord, if_pos haccepted, removeFound, hnone] at hstep
    obtain ⟨_, hremoved, hstep⟩ := bind_eq_ok_iff.mp hstep
    obtain rfl := Except.ok.inj hremoved
    obtain ⟨inserted, hinserted, -⟩ := bind_eq_ok_iff.mp hstep
    exact room_of_insertNew hindexed hinserted
  | line snapshot line =>
    intro hbrings
    have hword : findWord snapshot.exclude line.ip = false := by
      simp only [brings, Bool.and_eq_true, Bool.not_eq_true'] at hbrings
      exact hbrings.1.1.1
    rw [step, countLine, hword, if_neg Bool.false_ne_true, if_pos hbrings]
      at hstep
    obtain ⟨inserted, hinserted, -⟩ := bind_eq_ok_iff.mp hstep
    exact room_of_insertNew hindexed hinserted
  | finish _ => trivial
  | saveSpeedjs => trivial
  | saveHistjs => trivial

theorem run_indexed {events : List Event} (hrun : run events = .ok state) :
    Indexed state :=
  invariant_of_foldlM (fun _ _ _ hbefore hstep =>
    (step_indexed hbefore (fits_of_step hbefore hstep)).of_ok hstep)
    start_indexed hrun

/-! ## The exclude list -/

/-- What `calc` does with the lines of the accounting files. -/
def calcRound (snapshot : Snapshot) (lines : List Line) (state : State) :
    Except Fault State := do
  let state ← lines.foldlM (fun state line => countLine snapshot line state)
    state
  finish snapshot.exclude state

theorem countLine_excluded {snapshot : Snapshot} {line : Line}
    (hindexed : Indexed state)
    (hcount : countLine snapshot line state = .ok next) :
    Indexed next ∧ ∀ ip, findWord snapshot.exclude ip = true →
      (ip ∈ addresses next ↔ ip ∈ addresses state) := by
  have hfits : Fits state (.line snapshot line) := fits_of_step hindexed hcount
  obtain ⟨hnext, haddresses⟩ := (countLine_indexed hindexed hfits).of_ok hcount
  refine ⟨hnext, fun ip hip => ?_⟩
  split at haddresses
  next hbrings =>
    have hdiffer : ip ≠ line.ip := by
      rintro rfl
      simp [brings, hip] at hbrings
    rw [haddresses.mem_iff, mem_cons, or_iff_right hdiffer]
  next => rw [haddresses]

/-- No host of the exclude list is left exactly if each of those that were there
stands between two commas. -/
theorem calcRound_excludes_iff {events : List Event} {snapshot : Snapshot}
    {lines : List Line} (hrun : run events = .ok state)
    (hcalc : calcRound snapshot lines state = .ok next) :
    (∀ ip ∈ addresses next, findWord snapshot.exclude ip = false) ↔
      ∀ ip ∈ addresses state, findWord snapshot.exclude ip = true →
        ip ∈ (snapshot.exclude.splitOn 44).map (List.take inetAddrstrlen) := by
  obtain ⟨counted, hcounted, hfinish⟩ := bind_eq_ok_iff.mp hcalc
  -- The lines leave the hosts of the list as they were.
  have hlines := @invariant_of_foldlM _ _ _ _ (fun counted =>
      Indexed counted ∧ ∀ ip, findWord snapshot.exclude ip = true →
        (ip ∈ addresses counted ↔ ip ∈ addresses state))
    (fun before line after hbefore hafter => by
      obtain ⟨hindexed, hsame⟩ := countLine_excluded hbefore.1 hafter
      exact ⟨hindexed, fun ip hip => (hsame ip hip).trans (hbefore.2 ip hip)⟩)
    _ _ _ ⟨run_indexed hrun, fun _ _ => Iff.rfl⟩ hcounted
  obtain ⟨other, hother, -, hmem⟩ := finish_indexed snapshot.exclude hlines.1
  obtain rfl : next = other := Except.ok.inj (hfinish.symm.trans hother)
  constructor
  · intro hclean ip hip hword
    by_contra hpiece
    have hleft := (hmem ip).mpr ⟨(hlines.2 ip hword).mpr hip, hpiece⟩
    rw [hclean ip hleft] at hword
    cases hword
  · intro hpieces ip hip
    obtain ⟨hcountedIp, hpiece⟩ := (hmem ip).mp hip
    by_contra hword
    rw [Bool.not_eq_false] at hword
    exact hpiece (hpieces ip ((hlines.2 ip hword).mp hcountedIp) hword)

end

/-- A snapshot with an exclude list. -/
def excluding (exclude : String) : Snapshot :=
  { openSnapshot with
    nvram := fun key =>
      if key = bytes "cstats_exclude" then bytes exclude else [] }

/-- A start with one host. -/
def oneHost : List Event :=
  [.line openSnapshot ⟨bytes "10.0.0.1", 1, 1, by decide⟩]

theorem calcRound_excludes_host :
    ∃ state next, run oneHost = .ok state ∧
      calcRound (excluding "10.0.0.1,10.0.0.2") [] state = .ok next ∧
      ∀ ip ∈ addresses next,
        findWord (excluding "10.0.0.1,10.0.0.2").exclude ip = false := by
  refine ⟨_, _, rfl, rfl, ?_⟩
  refine (@calcRound_excludes_iff _ _ oneHost _ [] rfl rfl).mpr ?_
  decide

/-- The second word of a list with a blank stays in the tree. -/
theorem calcRound_keeps_word :
    ∃ state next, run oneHost = .ok state ∧
      calcRound (excluding "10.0.0.2 10.0.0.1") [] state = .ok next ∧
      ∃ ip ∈ addresses next,
        findWord (excluding "10.0.0.2 10.0.0.1").exclude ip = true := by
  refine ⟨_, _, rfl, rfl, bytes "10.0.0.1", ?_, ?_⟩
  · decide
  · decide

/-! ## Files -/

/-- What `gzread` and `gzclose` make of a file that can be opened: the whole
records, whether there is nothing behind them, and the result of closing. -/
structure GzFile where
  records : List Record
  ends : Bool
  closes : Bool

section
variable (exclude : Bytes) (uptime : ℤ)

/-- One record, with the number of those that have found their node. -/
def loadNext (loaded : ℤ × State) (record : Record) :
    Except Fault (ℤ × State) := do
  let state ← loadRecord exclude uptime record loaded.2
  if accepted exclude record &&
      (find nodeCompare (blankNode record.ipaddr) state.tree).isSome then
    return (loaded.1 + 1, state)
  else return (loaded.1, state)

def loadHistoryToTree (file : Option GzFile) (state : State) :
    Except Fault (ℤ × State) :=
  match file with
  | none => .ok (-1, state)
  | some file => do
      let (count, state) ← file.records.foldlM (loadNext exclude uptime)
        (0, state)
      if file.ends && file.closes then return (count, state)
      else return (-1, state)

/-- The files `_5.bak` to `_1.bak`, and the one that is asked for. -/
structure Candidates where
  backups : Fin 5 → Option GzFile
  file : Option GzFile

def Candidates.files (candidates : Candidates) : List (Option GzFile) :=
  ofFn candidates.backups ++ [candidates.file]

/-- `found |= load_history(fn)` -/
def tryNext (found : ℤ × State) (file : Option GzFile) :
    Except Fault (ℤ × State) := do
  let (count, state) ← loadHistoryToTree exclude uptime file found.2
  return (Int.lor found.1 count, state)

def tryHardway (candidates : Candidates) (state : State) :
    Except Fault (ℤ × State) :=
  candidates.files.foldlM (tryNext exclude uptime) (0, state)

/-- The file is read to its end, and closed. -/
def readable (file : Option GzFile) : Bool :=
  file.any fun file => file.ends && file.closes

variable {exclude uptime} {state next : State} {count : ℤ}

theorem loadNext_eq_ok {loaded after : ℤ × State} {record : Record}
    (hload : loadNext exclude uptime loaded record = .ok after) :
    loadRecord exclude uptime record loaded.2 = .ok after.2 ∧
      loaded.1 ≤ after.1 := by
  obtain ⟨state, hstate, hload⟩ := bind_eq_ok_iff.mp hload
  split at hload
  · obtain rfl := Except.ok.inj hload
    exact ⟨hstate, by simp⟩
  · obtain rfl := Except.ok.inj hload
    exact ⟨hstate, Int.le_refl _⟩

theorem loadHistoryToTree_nonneg_iff {file : Option GzFile}
    (hload : loadHistoryToTree exclude uptime file state = .ok (count, next)) :
    0 ≤ count ↔ readable file = true := by
  cases file with
  | none =>
    obtain ⟨rfl, -⟩ := Prod.mk.inj (Except.ok.inj hload)
    decide
  | some file =>
    obtain ⟨loaded, hloaded, hload⟩ := bind_eq_ok_iff.mp hload
    have hcount := @invariant_of_foldlM _ _ _ _
      (fun loaded : ℤ × State => 0 ≤ loaded.1)
      (fun _ _ _ hbefore hnext => hbefore.trans (loadNext_eq_ok hnext).2)
      _ _ _ (Int.le_refl 0) hloaded
    dsimp only at hload
    split at hload
    next hread =>
      obtain ⟨rfl, -⟩ := Prod.mk.inj (Except.ok.inj hload)
      exact iff_of_true hcount hread
    next hread =>
      obtain ⟨rfl, -⟩ := Prod.mk.inj (Except.ok.inj hload)
      exact iff_of_false (by decide) hread

theorem lor_nonneg_iff {left right : ℤ} :
    0 ≤ Int.lor left right ↔ 0 ≤ left ∧ 0 ≤ right := by
  cases left <;> cases right <;> simp [Int.lor]

/-- The accumulated value is negative as soon as one file fails. -/
theorem foldlM_tryNext_nonneg_iff {files : List (Option GzFile)}
    {found result : ℤ × State}
    (htry : files.foldlM (tryNext exclude uptime) found = .ok result) :
    0 ≤ result.1 ↔ 0 ≤ found.1 ∧ ∀ file ∈ files, readable file = true := by
  induction files generalizing found with
  | nil =>
    obtain rfl := Except.ok.inj htry
    simp
  | cons file files ih =>
    obtain ⟨middle, hmiddle, htry⟩ := bind_eq_ok_iff.mp htry
    obtain ⟨⟨count, state⟩, hload, hmiddle⟩ := bind_eq_ok_iff.mp hmiddle
    obtain rfl := Except.ok.inj hmiddle
    rw [ih htry, lor_nonneg_iff, loadHistoryToTree_nonneg_iff hload,
      forall_mem_cons, and_assoc]

/-- The result says whether a file was loaded exactly if all of them were, or
none. -/
theorem tryHardway_reports_iff {candidates : Candidates}
    (htry : tryHardway exclude uptime candidates state = .ok (count, next)) :
    (0 ≤ count ↔ ∃ file ∈ candidates.files, readable file = true) ↔
      (∀ file ∈ candidates.files, readable file = true) ∨
        ∀ file ∈ candidates.files, readable file = false := by
  have hcount : 0 ≤ count ↔ _ := foldlM_tryNext_nonneg_iff htry
  rw [hcount, and_iff_right (Int.le_refl 0)]
  have hfile : candidates.file ∈ candidates.files := by
    simp [Candidates.files]
  constructor
  · intro hreports
    by_cases hsome : ∃ file ∈ candidates.files, readable file = true
    · exact .inl (hreports.mpr hsome)
    · refine .inr fun file hmem => ?_
      exact Bool.not_eq_true _ ▸ fun hread => hsome ⟨file, hmem, hread⟩
  · rintro (hall | hnone)
    · exact iff_of_true hall ⟨_, hfile, hall _ hfile⟩
    · refine iff_of_false (fun hall => ?_) ?_
      · exact Bool.noConfusion ((hall _ hfile).symm.trans (hnone _ hfile))
      · rintro ⟨file, hmem, hread⟩
        exact Bool.noConfusion (hread.symm.trans (hnone file hmem))

/-- A record of a host without traffic. -/
def plainRecord : Record :=
  ⟨bytes "10.0.0.1", currentId, .empty 62, .empty 25, 0, fun _ => ⟨0, 0⟩,
    ⟨0, 0⟩, 0⟩

/-- Every file can be read and holds the host. -/
def sixFiles : Candidates :=
  ⟨fun _ => some ⟨[plainRecord], true, true⟩, some ⟨[plainRecord], true, true⟩⟩

theorem tryHardway_reports_six :
    ∃ count next, tryHardway [] 0 sixFiles State.start = .ok (count, next) ∧
      (0 ≤ count ↔ ∃ file ∈ sixFiles.files, readable file = true) := by
  obtain ⟨⟨count, next⟩, htry⟩ : ∃ result,
      tryHardway [] 0 sixFiles State.start = .ok result :=
    ⟨_, rfl⟩
  exact ⟨count, next, htry,
    (tryHardway_reports_iff htry).mpr (.inl (by decide))⟩

/-- One backup can be read, and the other files are not there. -/
def oneBackup : Candidates :=
  ⟨fun index => if index.val = 4 then some ⟨[], true, true⟩ else none, none⟩

theorem tryHardway_hides_backup :
    ∃ count next, tryHardway [] 0 oneBackup State.start = .ok (count, next) ∧
      count < 0 ∧ ∃ file ∈ oneBackup.files, readable file = true := by
  obtain ⟨⟨count, next⟩, htry⟩ : ∃ result,
      tryHardway [] 0 oneBackup State.start = .ok result :=
    ⟨_, rfl⟩
  refine ⟨count, next, htry, Int.not_le.mp fun hcount => ?_, by decide⟩
  have hall := (foldlM_tryNext_nonneg_iff htry).mp hcount
  exact absurd hall.2 (by decide)

/-! ## Failed loads -/

/-- The node that the tree holds for an address. -/
def host (state : State) (ip : Bytes) : Option Node :=
  find nodeCompare { blankNode [] with ipaddr := ip } state.tree

theorem host_eq_some_iff (hindexed : Indexed state) {ip : Bytes} {node : Node} :
    host state ip = some node ↔
      node ∈ state.tree.toList ∧ node.ipaddr = ip := by
  rw [host, find_eq_some_iff hindexed.ordered, nodeCompare_eq_iff]
  exact and_congr_right' eq_comm

/-- What the accepted records write into the tree. -/
def entries (exclude : Bytes) (uptime : ℤ) (records : List Record) :
    List (Bytes × Option Node) :=
  (records.filter (accepted exclude)).map fun record =>
    ((record.node uptime).ipaddr, some (record.node uptime))

/-- An accepted record takes the place of the node with its address. -/
theorem host_loadRecord {record : Record} (hindexed : Indexed state)
    (haccepted : accepted exclude record = true)
    (hload : loadRecord exclude uptime record state = .ok next) :
    Indexed next ∧ host next = Function.update (host state)
      (record.node uptime).ipaddr (some (record.node uptime)) := by
  have hfits : Fits state (.record exclude uptime record) :=
    fits_of_step hindexed hload
  obtain ⟨other, hother, hnext, hmem⟩ :=
    loadRecord_indexed uptime hindexed haccepted (hfits haccepted)
  obtain rfl : other = next := Except.ok.inj (hother.symm.trans hload)
  refine ⟨hnext, funext fun ip => Option.ext fun node => ?_⟩
  rw [host_eq_some_iff hnext, hmem]
  by_cases hip : ip = (record.node uptime).ipaddr
  · subst hip
    rw [Function.update_self, Option.some_inj]
    constructor
    · rintro ⟨rfl | ⟨-, hdiffer⟩, hsame⟩
      · rfl
      · exact (hdiffer hsame).elim
    · rintro rfl
      exact ⟨.inl rfl, rfl⟩
  · rw [Function.update_of_ne hip, host_eq_some_iff hindexed]
    constructor
    · rintro ⟨rfl | ⟨hnode, -⟩, rfl⟩
      · exact (hip rfl).elim
      · exact ⟨hnode, rfl⟩
    · rintro ⟨hnode, rfl⟩
      exact ⟨.inr ⟨hnode, hip⟩, rfl⟩

theorem host_loadRecords {records : List Record} {loaded after : ℤ × State}
    (hindexed : Indexed loaded.2)
    (hload : records.foldlM (loadNext exclude uptime) loaded = .ok after) :
    host after.2 =
      written (entries exclude uptime records) (host loaded.2) := by
  induction records generalizing loaded with
  | nil =>
    obtain rfl := Except.ok.inj hload
    rfl
  | cons record records ih =>
    obtain ⟨middle, hmiddle, hload⟩ := bind_eq_ok_iff.mp hload
    have hrecord := (loadNext_eq_ok hmiddle).1
    by_cases haccepted : accepted exclude record = true
    · obtain ⟨hnext, hhost⟩ := host_loadRecord hindexed haccepted hrecord
      rw [ih hnext hload, hhost, entries, entries, filter_cons_of_pos haccepted]
      rfl
    rw [loadRecord, if_neg haccepted] at hrecord
    have hsame := Except.ok.inj hrecord
    rw [hsame] at hindexed
    rw [ih hindexed hload, hsame, entries, entries,
      filter_cons_of_neg haccepted]

/-- A failed load leaves the hosts as they were exactly if the last record of
each address is what the tree holds for it. -/
theorem loadHistoryToTree_atomic_iff {events : List Event}
    {file : Option GzFile} (hrun : run events = .ok state)
    (hload : loadHistoryToTree exclude uptime file state = .ok (count, next)) :
    (count < 0 → host next = host state) ↔
      readable file = true ∨ ∀ gz ∈ file, ∀ ip,
        ∀ entry ∈ (atKey ip (entries exclude uptime gz.records)).getLast?,
          host state ip = entry.2 := by
  have hcount := loadHistoryToTree_nonneg_iff hload
  rw [← hcount, ← Int.not_lt, ← imp_iff_not_or]
  refine imp_congr_right fun _ => ?_
  cases file with
  | none =>
    obtain ⟨-, rfl⟩ := Prod.mk.inj (Except.ok.inj hload)
    simp
  | some gz =>
    obtain ⟨loaded, hloaded, hload⟩ := bind_eq_ok_iff.mp hload
    have hstate : loaded.2 = next := by
      dsimp only at hload
      split at hload
      · exact (Prod.mk.inj (Except.ok.inj hload)).2
      · exact (Prod.mk.inj (Except.ok.inj hload)).2
    have hhost := host_loadRecords (run_indexed hrun) hloaded
    rw [hstate] at hhost
    simp only [Option.mem_def, Option.some_inj, forall_eq']
    rw [hhost, funext_iff]
    refine forall_congr' fun ip => ?_
    rw [written_eq]
    cases (atKey ip (entries exclude uptime gz.records)).getLast? with
    | none => simp
    | some entry => simp [eq_comm]

end

/-- A cut file changes nothing when its records are in the tree already. -/
theorem loadHistoryToTree_atomic_cut :
    ∃ state count next, run [.record [] 0 plainRecord] = .ok state ∧
      loadHistoryToTree [] 0 (some ⟨[plainRecord], false, true⟩) state =
        .ok (count, next) ∧ count < 0 ∧ host next = host state := by
  refine ⟨_, _, _, rfl, rfl, by decide, ?_⟩
  refine (@loadHistoryToTree_atomic_iff [] 0 _ _ _ [.record [] 0 plainRecord]
    (some ⟨[plainRecord], false, true⟩) rfl rfl).mpr (.inr ?_) (by decide)
  rintro _ ⟨⟩ ip entry hentry
  obtain ⟨hmem, hip⟩ := mem_filter.mp (mem_of_getLast? hentry)
  obtain rfl := of_decide_eq_true hip
  obtain rfl := mem_singleton.mp hmem
  rfl

/-- A file that is cut in its second record brings in the first one. -/
theorem loadHistoryToTree_leaves_host :
    ∃ count next, loadHistoryToTree [] 0 (some ⟨[plainRecord], false, true⟩)
        State.start = .ok (count, next) ∧ count < 0 ∧
      (host next (bytes "10.0.0.1")).isSome ∧
      host State.start (bytes "10.0.0.1") = none :=
  ⟨_, _, rfl, by decide, by decide, rfl⟩

end Tomato64.Cstats
