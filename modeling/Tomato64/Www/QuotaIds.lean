import Tomato64.Www.QuotaGrid

/-!
# An id is issued once

The counter of the quota page stays above every number that the rows have
carried, so what it issues is new.  This needs a stored counter above the ids
that stand behind a record without one: the grid is filled in one pass, and a
backfilled id is issued before the ids behind it have been seen.
-/

namespace Tomato64.QuotaGrid

open List Number Text

/-- What the page promises about its ids. -/
structure Sound {engine : Engine} (page : Page engine) : Prop where
  named : ∀ row ∈ page.rows, row.id ≠ []
  distinct : (page.rows.map Row.id).Nodup
  keeps : ∀ change ∈ page.changes,
    recordId change.new = recordId change.old ↔
      recordIp change.new = recordIp change.old
  fresh : ∀ issue ∈ page.issues, issue.id ∉ issue.before

/-! ## The table -/

theorem insertIdx_perm_or {α : Type*} (index : ℕ) (value : α)
    (values : List α) :
    Perm (values.insertIdx index value) (value :: values) ∨
      values.insertIdx index value = values := by
  by_cases hindex : index ≤ values.length
  · exact .inl (perm_insertIdx value values hindex)
  · exact .inr (insertIdx_of_length_lt (by omega))

theorem perm_cons_filter {rows : List Row}
    (helements : (rows.map Row.element).Nodup) {row : Row} (hrow : row ∈ rows) :
    rows.Perm (row :: rows.filter (·.element ≠ row.element)) := by
  induction rows with
  | nil => cases hrow
  | cons head rows ih =>
    rw [map_cons, nodup_cons] at helements
    rcases mem_cons.1 hrow with rfl | hmem
    · have hothers : ∀ other ∈ rows,
          decide (other.element ≠ row.element) = true := by
        intro other hother
        rw [decide_eq_true_eq]
        intro hsame
        exact helements.1 (hsame ▸ mem_map_of_mem hother)
      rw [filter_cons_of_neg (by simp), filter_eq_self.2 hothers]
    · have hne : head.element ≠ row.element := fun hsame =>
        helements.1 (hsame ▸ mem_map_of_mem hmem)
      rw [filter_cons_of_pos (by simpa using hne)]
      exact ((ih helements.2 hmem).cons head).trans (Perm.swap _ _ _)

section
variable {engine : Engine} {page : Page engine} {next : ℕ}

theorem row?_eq_some {element : ℕ} {row : Row}
    (hrow : page.row? element = some row) :
    row ∈ page.rows ∧ row.element = element :=
  ⟨mem_of_find?_eq_some hrow, by simpa using find?_some hrow⟩

theorem index_lt {element : ℕ} (hrow : (page.row? element).isSome = true) :
    page.index element < page.rows.length := by
  rw [Page.row?, find?_isSome] at hrow
  exact findIdx_lt_length.2 hrow

/-- The state of the counter, of the table and of the editor.  The counter
stands above every number that a row has carried. -/
structure Invariant (page : Page engine) (next : ℕ) : Prop where
  counter : page.nextid = engine.ofNat next
  passed : ∀ id ∈ page.used, id ≠ [] ∧ engine.ReadsBelow id next
  carried : ∀ row ∈ page.rows, row.id ∈ page.used
  distinct : (page.rows.map Row.id).Nodup
  elements : (page.rows.map Row.element).Nodup
  elements_lt : ∀ row ∈ page.rows, row.element < page.elements
  editing : ∀ element, page.editRow = some element →
    ∃ row ∈ page.rows, row.element = element ∧ page.hiddenId = row.id ∧
      page.hiddenIp = recordIp row.data
  adding : page.editRow = none → page.hiddenId = []
  saving : page.saving = true ↔ page.editRow.isSome = true
  keeps : ∀ change ∈ page.changes,
    recordId change.new = recordId change.old ↔
      recordIp change.new = recordIp change.old
  fresh : ∀ issue ∈ page.issues, issue.id ∉ issue.before

variable (hpage : Invariant page next)
include hpage

theorem Invariant.sound : Sound page where
  named row hrow := (hpage.passed _ (hpage.carried row hrow)).1
  distinct := hpage.distinct
  keeps := hpage.keeps
  fresh := hpage.fresh

/-- A higher counter. -/
theorem Invariant.lift {high : ℕ}
    (hle : next ≤ high) :
    Invariant { page with nextid := engine.ofNat high } high :=
  { hpage with
    counter := rfl
    passed := fun id hid =>
      ⟨(hpage.passed id hid).1, (hpage.passed id hid).2.mono hle⟩ }

/-- The same rows in another order. -/
theorem Invariant.reorder {rows : List Row}
    (hperm : rows.Perm page.rows) :
    Invariant { page with rows := rows } next :=
  { hpage with
    carried := fun row hrow => hpage.carried row (hperm.mem_iff.1 hrow)
    distinct := (hperm.map Row.id).nodup_iff.2 hpage.distinct
    elements := (hperm.map Row.element).nodup_iff.2 hpage.elements
    elements_lt := fun row hrow => hpage.elements_lt row (hperm.mem_iff.1 hrow)
    editing := fun element helement => by
      obtain ⟨row, hrow, hfields⟩ := hpage.editing element helement
      exact ⟨row, hperm.mem_iff.2 hrow, hfields⟩ }

theorem Invariant.setMoving
    (moving : Option ℕ) : Invariant { page with moving := moving } next :=
  { hpage with }

theorem Invariant.clearFields :
    Invariant (clearFields page) next :=
  { hpage with
    editing := fun _ hnone => by cases hnone
    adding := fun _ => rfl
    saving := by simp [QuotaGrid.clearFields] }

/-! ## Issuing and inserting -/

theorem Invariant.quotaNewId
    (hnext : next < exactBound) :
    Invariant (quotaNewId page).2 (next + 1) ∧
      (quotaNewId page).1 = decimal next ∧ decimal next ∉ page.used := by
  have htext : engine.text page.nextid = decimal next := by
    rw [hpage.counter, engine.text_ofNat next hnext.le]
  have hunused : decimal next ∉ page.used := fun hmem =>
    (hpage.passed _ hmem).2.ne_decimal le_rfl hnext.le rfl
  have hsucc : engine.succ page.nextid = engine.ofNat (next + 1) := by
    rw [hpage.counter, engine.succ_ofNat next hnext]
  refine ⟨?_, htext, hunused⟩
  have hlift := hpage.lift (Nat.le_succ next)
  exact { hlift with
    counter := hsucc
    fresh := forall_mem_cons.2 ⟨htext ▸ hunused, hpage.fresh⟩ }

omit hpage in
theorem decimal_named (engine : Engine) (hnext : next < exactBound) :
    decimal next ≠ [] ∧ engine.ReadsBelow (decimal next) (next + 1) := by
  obtain ⟨first, others, hdecimal, -⟩ := exists_decimal_eq_cons next
  refine ⟨by simp [hdecimal], .inr ⟨next, Nat.lt_succ_self next, ?_⟩⟩
  exact engine.ofText_decimal next hnext.le

variable {data : List Bytes}

/-- A row with an id that no other row has. -/
theorem Invariant.insertData
    (index : Option ℕ)
    (hid : recordId data ≠ [] ∧ engine.ReadsBelow (recordId data) next)
    (hnew : ∀ row ∈ page.rows, row.id ≠ recordId data) :
    Invariant (insertData index data page) next := by
  have hpassed : ∀ id ∈ recordId data :: page.used,
      id ≠ [] ∧ engine.ReadsBelow id next :=
    forall_mem_cons.2 ⟨hid, hpage.passed⟩
  have hcarried : ∀ row ∈ page.rows, row.id ∈ recordId data :: page.used :=
    fun row hrow => mem_cons_of_mem _ (hpage.carried row hrow)
  have hless : ∀ row ∈ page.rows, row.element < page.elements + 1 :=
    fun row hrow => Nat.lt_succ_of_lt (hpage.elements_lt row hrow)
  rcases insertIdx_perm_or (index.getD page.rows.length)
    (Row.mk page.elements data) page.rows with hperm | hsame
  · exact { hpage with
      passed := hpassed
      carried := fun row hrow => by
        rcases mem_cons.1 (hperm.mem_iff.1 hrow) with rfl | hrow
        · exact mem_cons_self
        · exact hcarried row hrow
      distinct := by
        refine (hperm.map Row.id).nodup_iff.2 (nodup_cons.2 ?_)
        refine ⟨fun hmem => ?_, hpage.distinct⟩
        obtain ⟨row, hrow, heq⟩ := mem_map.1 hmem
        exact hnew row hrow heq
      elements := by
        refine (hperm.map Row.element).nodup_iff.2 (nodup_cons.2 ?_)
        refine ⟨fun hmem => ?_, hpage.elements⟩
        obtain ⟨row, hrow, heq⟩ := mem_map.1 hmem
        exact (hpage.elements_lt row hrow).ne heq
      elements_lt := fun row hrow => by
        rcases mem_cons.1 (hperm.mem_iff.1 hrow) with rfl | hrow
        · exact Nat.lt_succ_self _
        · exact hless row hrow
      editing := fun element helement => by
        obtain ⟨row, hrow, hfields⟩ := hpage.editing element helement
        exact ⟨row, hperm.mem_iff.2 (mem_cons_of_mem _ hrow), hfields⟩ }
  · unfold QuotaGrid.insertData
    simp only [hsame]
    exact { hpage with
      passed := hpassed
      carried := hcarried
      elements_lt := hless }

/-! ## Moving and deleting -/

theorem Invariant.relocate (element : ℕ)
    {index : ℕ} (hindex : index < page.rows.length) :
    Invariant (relocate element index page) next := by
  unfold QuotaGrid.relocate
  split
  · exact hpage
  next row hfound =>
  obtain ⟨hrow, rfl⟩ := row?_eq_some hfound
  have hperm := perm_cons_filter hpage.elements hrow
  have hlength := hperm.length_eq
  rw [length_cons] at hlength
  refine hpage.reorder (Perm.trans ?_ hperm.symm)
  exact perm_insertIdx row _ (by omega)

theorem Invariant.rowDel (element : ℕ) :
    Invariant (rowDel element page) next ∧
      ∀ row ∈ (rowDel element page).rows,
        row ∈ page.rows ∧ row.element ≠ element := by
  have hmem : ∀ rows : List Row, ∀ row ∈ rows.filter (·.element ≠ element),
      row ∈ rows ∧ row.element ≠ element := by
    intro rows row hrow
    simpa using mem_filter.1 hrow
  have hdelete : ∀ page : Page engine, Invariant page next →
      page.editRow ≠ some element →
      Invariant { page with
        moving := none
        rows := page.rows.filter (·.element ≠ element) } next := by
    intro page hpage hedit
    have hsub : (page.rows.filter (·.element ≠ element)).Sublist page.rows :=
      filter_sublist
    exact { hpage with
      carried := fun row hrow => hpage.carried row (hsub.subset hrow)
      distinct := hpage.distinct.sublist (hsub.map Row.id)
      elements := hpage.elements.sublist (hsub.map Row.element)
      elements_lt := fun row hrow => hpage.elements_lt row (hsub.subset hrow)
      editing := fun other hother => by
        obtain ⟨row, hrow, helement, hfields⟩ := hpage.editing other hother
        refine ⟨row, mem_filter.2 ⟨hrow, ?_⟩, helement, hfields⟩
        rw [decide_eq_true_eq, helement]
        rintro rfl
        exact hedit hother }
  unfold QuotaGrid.rowDel
  split
  · exact ⟨hdelete _ hpage.clearFields nofun, hmem page.rows⟩
  · next hedit => exact ⟨hdelete _ hpage hedit, hmem page.rows⟩

theorem Invariant.edit (element : ℕ) :
    Invariant (edit element page) next := by
  unfold QuotaGrid.edit
  split
  · exact hpage
  next row hfound =>
  obtain ⟨hrow, helement⟩ := row?_eq_some hfound
  exact { hpage with
    editing := fun other hother => by
      cases hother
      exact ⟨row, hrow, helement, rfl, rfl⟩
    adding := nofun
    saving := by simp }

/-! ## The actions -/

omit hpage in
theorem recordId_fieldsToData (form : Form) :
    recordId (fieldsToData form page).1 =
      if page.hiddenId ≠ [] ∧ page.hiddenIp = form.ip engine then page.hiddenId
      else (quotaNewId page).1 := by
  have hlast : ∀ id : Bytes,
      recordId (form.on :: form.ip engine :: form.settings ++ [id]) = id := by
    intro id
    simp [recordId, form.settings_length]
  unfold fieldsToData
  rw [hlast, apply_ite Prod.fst]

/-- What the editor stores carries the hidden id when the address is the hidden
one, and a new id otherwise. -/
theorem Invariant.fieldsToData
    (hnext : next < exactBound) (form : Form) :
    ∃ high ≤ next + 1, Invariant (fieldsToData form page).2 high ∧
      (fieldsToData form page).2.rows = page.rows ∧
      (fieldsToData form page).2.used = page.used ∧
      engine.ReadsBelow (recordId (fieldsToData form page).1) high ∧
      recordId (fieldsToData form page).1 ≠ [] ∧
      if page.hiddenId ≠ [] ∧ page.hiddenIp = form.ip engine then
        recordId (fieldsToData form page).1 = page.hiddenId
      else recordId (fieldsToData form page).1 ∉ page.used := by
  rw [recordId_fieldsToData]
  unfold QuotaGrid.fieldsToData
  by_cases hkeep : page.hiddenId ≠ [] ∧ page.hiddenIp = form.ip engine
  · simp only [if_pos hkeep]
    have hused : page.hiddenId ∈ page.used := by
      cases hedit : page.editRow with
      | none => exact absurd (hpage.adding hedit) hkeep.1
      | some element =>
        obtain ⟨row, hrow, -, hid, -⟩ := hpage.editing element hedit
        exact hid ▸ hpage.carried row hrow
    exact ⟨next, Nat.le_succ next, hpage, trivial, trivial,
      (hpage.passed _ hused).2, hkeep.1, trivial⟩
  · simp only [if_neg hkeep]
    obtain ⟨hissued, htext, hunused⟩ := hpage.quotaNewId hnext
    rw [htext]
    obtain ⟨hnamed, hreads⟩ := decimal_named engine hnext
    exact ⟨next + 1, le_rfl, hissued, rfl, rfl, hreads, hnamed, hunused⟩

theorem Invariant.addQuota
    (hnext : next < exactBound) (hadding : page.hiddenId = [])
    (verified : Bool) (form : Form) :
    ∃ high ≤ next + 1, Invariant (addQuota verified form page) high := by
  cases verified with
  | false => exact ⟨next, Nat.le_succ next, hpage⟩
  | true =>
    obtain ⟨high, hhigh, hfilled, hrows, hused, hreads, hnamed, hid⟩ :=
      hpage.fieldsToData hnext form
    rw [if_neg (fun hkeep => hkeep.1 hadding)] at hid
    refine ⟨high, hhigh, (hfilled.insertData none ⟨hnamed, hreads⟩ ?_).clearFields⟩
    intro row hrow hsame
    rw [hrows] at hrow
    exact hid (hsame ▸ hpage.carried row hrow)

theorem Invariant.saveQuota
    (hnext : next < exactBound) (verified : Bool) (form : Form) :
    ∃ high ≤ next + 1, Invariant (saveQuota verified form page) high := by
  unfold QuotaGrid.saveQuota
  split
  · exact ⟨next, Nat.le_succ next, hpage⟩
  next row hfound =>
  cases verified with
  | false => exact ⟨next, Nat.le_succ next, hpage⟩
  | true =>
    obtain ⟨element, hedit, hrow?⟩ := Option.bind_eq_some_iff.1 hfound
    obtain ⟨hrow, rfl⟩ := row?_eq_some hrow?
    obtain ⟨edited, hedited, helement, hid, hip⟩ :=
      hpage.editing row.element hedit
    obtain rfl := inj_on_of_nodup_map hpage.elements hedited hrow
      helement
    have hcarried := hpage.carried edited hrow
    have hhidden : page.hiddenId ≠ [] := hid ▸ (hpage.passed _ hcarried).1
    obtain ⟨high, hhigh, hfilled, hrows, -, hreads, hnamed, hkeeps⟩ :=
      hpage.fieldsToData hnext form
    have hchange : recordId (QuotaGrid.fieldsToData form page).1 =
        edited.id ↔ form.ip engine = recordIp edited.data := by
      split at hkeeps
      · next hkeep =>
        exact iff_of_true (hkeeps.trans hid) (hkeep.2.symm.trans hip)
      · next hkeep =>
        refine iff_of_false (fun hsame => ?_) (fun hsame => ?_)
        · exact hkeeps (hsame ▸ hcarried)
        · exact hkeep ⟨hhidden, hip.trans hsame.symm⟩
    have hlogged : Invariant { (QuotaGrid.fieldsToData form page).2 with
        changes := ⟨edited.data, (QuotaGrid.fieldsToData form page).1⟩ ::
          (QuotaGrid.fieldsToData form page).2.changes } high :=
      { hfilled with
        keeps := forall_mem_cons.2 ⟨hchange, hfilled.keeps⟩ }
    obtain ⟨hdeleted, hothers⟩ := hlogged.rowDel edited.element
    refine ⟨high, hhigh,
      (hdeleted.insertData _ ⟨hnamed, hreads⟩ ?_).clearFields⟩
    intro other hother hsame
    obtain ⟨hmem, hne⟩ := hothers other hother
    rw [hrows] at hmem
    split at hkeeps
    · rw [hkeeps, hid] at hsame
      exact hne (congrArg Row.element
        (inj_on_of_nodup_map hpage.distinct hmem hrow hsame))
    · exact hkeeps (hsame ▸ hpage.carried other hmem)

theorem Invariant.step
    (hnext : next < exactBound) (action : Action) :
    ∃ high ≤ next + 1, Invariant (step page action) high := by
  unfold QuotaGrid.step
  split
  swap
  · exact ⟨next, Nat.le_succ next, hpage⟩
  next hhere =>
  have hrow : ∀ element, action.element? = some element →
      page.index element < page.rows.length := by
    intro element helement
    rw [helement, Option.all_some] at hhere
    exact index_lt hhere
  cases action with
  | press verified form =>
    simp only [act]
    split
    · exact hpage.saveQuota hnext verified form
    · next hsaving =>
      rw [hpage.saving, Option.not_isSome_iff_eq_none] at hsaving
      exact hpage.addQuota hnext (hpage.adding hsaving) verified form
  | clear => exact ⟨next, Nat.le_succ next, hpage.clearFields⟩
  | click element =>
    refine ⟨next, Nat.le_succ next, ?_⟩
    simp only [act, onClick]
    split
    · exact hpage.edit element
    · split
      · exact hpage.setMoving none
      · exact (hpage.setMoving none).relocate _ (hrow element rfl)
  | up element =>
    have hindex := hrow element rfl
    refine ⟨next, Nat.le_succ next, ?_⟩
    simp only [act, rpUp]
    split
    · exact hpage.setMoving none
    · refine (hpage.setMoving none).relocate _ ?_
      exact (Nat.sub_le _ _).trans_lt hindex
  | down element =>
    have hindex := hrow element rfl
    refine ⟨next, Nat.le_succ next, ?_⟩
    simp only [act, rpDn]
    split
    · exact hpage.setMoving none
    · next hlast =>
      exact (hpage.setMoving none).relocate _
        (lt_of_le_of_ne hindex hlast)
  | mark element => exact ⟨next, Nat.le_succ next, hpage.setMoving _⟩
  | delete element => exact ⟨next, Nat.le_succ next, (hpage.rowDel element).1⟩

theorem Invariant.run (actions : List Action)
    (hnext : next + actions.length ≤ exactBound) :
    ∃ high, Invariant (actions.foldl QuotaGrid.step page) high := by
  induction actions generalizing page next with
  | nil => exact ⟨next, hpage⟩
  | cons action actions ih =>
    rw [length_cons] at hnext
    obtain ⟨high, hhigh, hstep⟩ := hpage.step (by omega) action
    exact ih hstep (by omega)

omit hpage

/-! ## Filling the grid -/

/-- The stored rules.  Their own ids are names or whole numbers below `limit`,
and one that stands behind a record without an id is below `first`. -/
structure Stored (engine : Engine) (first limit : ℕ)
    (records : List (List Bytes)) : Prop where
  explicit : ∀ data ∈ records, hasId data = true →
    recordId data ≠ [] ∧ engine.ReadsBelow (recordId data) limit
  behind : records.Pairwise fun earlier later =>
    lacksId earlier = true → hasId later = true →
      engine.ReadsBelow (recordId later) first

/-- The ids that the records carry themselves. -/
def explicitIds (records : List (List Bytes)) : List Bytes :=
  (records.filter hasId).map recordId

theorem recordId_mem_explicitIds {records : List (List Bytes)}
    (hdata : data ∈ records) (hhas : hasId data = true) :
    recordId data ∈ explicitIds records :=
  mem_map_of_mem (mem_filter.2 ⟨hdata, hhas⟩)

theorem quotaBumpId_frame (id : Bytes) (page : Page engine) :
    (quotaBumpId id page).rows = page.rows ∧
      (quotaBumpId id page).used = page.used := by
  unfold quotaBumpId
  dsimp only
  split <;> exact ⟨rfl, rfl⟩

theorem Invariant.quotaBumpId (hpage : Invariant page next) {id : Bytes}
    {limit : ℕ} (hid : engine.ReadsBelow id limit) (hlimit : limit ≤ exactBound)
    (hnext : next ≤ exactBound) :
    ∃ high, next ≤ high ∧ high ≤ max next limit ∧
      Invariant (quotaBumpId id page) high ∧ engine.ReadsBelow id high := by
  unfold QuotaGrid.quotaBumpId
  dsimp only
  rcases hid with hnan | ⟨number, hnumber, heq⟩
  · rw [hnan, if_neg (by simp)]
    exact ⟨next, le_rfl, le_max_left _ _, hpage, .inl hnan⟩
  rw [heq, hpage.counter, engine.isNaN_ofNat number (by omega),
    engine.ge_ofNat number (by omega) next hnext]
  by_cases hhigher : next ≤ number
  · rw [if_pos ⟨rfl, decide_eq_true hhigher⟩,
      engine.succ_ofNat number (by omega)]
    exact ⟨number + 1, by omega, by omega, hpage.lift (by omega),
      .inr ⟨number, Nat.lt_succ_self number, heq⟩⟩
  · rw [if_neg (by simpa using hhigher)]
    exact ⟨next, le_rfl, le_max_left _ _, hpage,
      .inr ⟨number, by omega, heq⟩⟩

theorem map_id_insertData (data : List Bytes) (page : Page engine) :
    (insertData none data page).rows.map Row.id =
      page.rows.map Row.id ++ [recordId data] := by
  simp [insertData, Row.id]

theorem recordId_append (hlacks : lacksId data = true)
    (id : Bytes) :
    recordId (data ++ replicate (13 - data.length) [] ++ [id]) = id := by
  have hlength : (data ++ replicate (13 - data.length) []).length = 13 := by
    rw [length_append, length_replicate]
    simp only [lacksId, Bool.or_eq_true, decide_eq_true_eq] at hlacks
    omega
  rw [recordId, getD_eq_getElem?_getD, getElem?_append_right hlength.le,
    hlength]
  rfl

theorem map_id_populate_lacksId
    (hlacks : lacksId data = true) (page : Page engine) :
    (populate page data).rows.map Row.id =
      page.rows.map Row.id ++ [engine.text page.nextid] := by
  rw [populate, if_pos hlacks, map_id_insertData, recordId_append hlacks]
  rfl

theorem map_id_populate_hasId (hhas : hasId data = true)
    (page : Page engine) :
    (populate page data).rows.map Row.id =
      page.rows.map Row.id ++ [recordId data] := by
  have hlacks : ¬ lacksId data = true := by
    simp only [hasId, decide_eq_true_eq] at hhas
    simp [lacksId, hhas]
  rw [populate, if_neg hlacks, if_pos hhas, map_id_insertData,
    (quotaBumpId_frame (recordId data) page).1]

/-- One record.  `first` and `limit` bound the ids that are still to come. -/
theorem Invariant.populate (hpage : Invariant page next)
    {rest : List (List Bytes)} {first limit : ℕ}
    (hfirst : first ≤ next) (hlimit : limit ≤ exactBound)
    (hnext : next < exactBound)
    (hstored : Stored engine first limit (data :: rest))
    (hdistinct : (explicitIds (data :: rest)).Nodup)
    (hunused : ∀ id ∈ explicitIds (data :: rest), id ∉ page.used) :
    ∃ high, next ≤ high ∧ high ≤ max (next + 1) limit ∧
      Invariant (populate page data) high ∧
      ∀ id ∈ explicitIds rest, id ∉ (populate page data).used := by
  have hbehind := (pairwise_cons.1 hstored.behind).1
  have hrest : ∀ id ∈ explicitIds rest, id ∈ explicitIds (data :: rest) :=
    Sublist.subset
      (((sublist_cons_self data rest).filter hasId).map recordId)
  unfold QuotaGrid.populate
  by_cases hlacks : lacksId data = true
  · rw [if_pos hlacks]
    obtain ⟨hissued, htext, hnew⟩ := hpage.quotaNewId hnext
    have hid := recordId_append hlacks (QuotaGrid.quotaNewId page).1
    rw [htext] at hid
    refine ⟨next + 1, by omega, le_max_left _ _, hissued.insertData none ?_ ?_, ?_⟩
    · rw [htext, hid]
      exact decimal_named engine hnext
    · intro row hrow hsame
      rw [htext, hid] at hsame
      exact hnew (hsame ▸ hpage.carried row hrow)
    intro id hmem hused
    rcases mem_cons.1 hused with rfl | hused
    · -- an id behind this record would have to be below the counter
      obtain ⟨later, hlater, hsame⟩ := mem_map.1 hmem
      obtain ⟨hlater, hhas⟩ := mem_filter.1 hlater
      rw [htext, hid] at hsame
      exact (hbehind later hlater hlacks hhas).ne_decimal hfirst hnext.le hsame
    · exact hunused id (hrest id hmem) hused
  · rw [if_neg hlacks]
    by_cases hhas : hasId data = true
    · rw [if_pos hhas]
      obtain ⟨hnamed, hreads⟩ := hstored.explicit data mem_cons_self hhas
      obtain ⟨high, hlow, hhigh, hbumped, hbelow⟩ :=
        hpage.quotaBumpId hreads hlimit hnext.le
      obtain ⟨hrows, hused⟩ := quotaBumpId_frame (recordId data) page
      have hfresh := hunused _ (recordId_mem_explicitIds mem_cons_self hhas)
      refine ⟨high, hlow, by omega, hbumped.insertData none ⟨hnamed, hbelow⟩ ?_, ?_⟩
      · intro row hrow hsame
        rw [hrows] at hrow
        exact hfresh (hsame ▸ hpage.carried row hrow)
      intro id hmem hid
      rw [explicitIds, filter_cons_of_pos hhas, map_cons,
        nodup_cons] at hdistinct
      rcases mem_cons.1 hid with rfl | hid
      · exact hdistinct.1 hmem
      · exact hunused id (hrest id hmem) (hused ▸ hid)
    · rw [if_neg hhas]
      exact ⟨next, le_rfl, by omega, hpage,
        fun id hmem => hunused id (hrest id hmem)⟩

theorem Stored.tail {first limit : ℕ}
    {rest : List (List Bytes)}
    (hstored : Stored engine first limit (data :: rest)) :
    Stored engine first limit rest :=
  ⟨fun later hlater => hstored.explicit later (mem_cons_of_mem _ hlater),
    (pairwise_cons.1 hstored.behind).2⟩

theorem Invariant.foldl_populate {records : List (List Bytes)}
    {first limit bound : ℕ} (hpage : Invariant page next)
    (hfirst : first ≤ next) (hnext : next ≤ bound) (hlimit : limit ≤ bound)
    (hbound : bound + records.length ≤ exactBound)
    (hstored : Stored engine first limit records)
    (hdistinct : (explicitIds records).Nodup)
    (hunused : ∀ id ∈ explicitIds records, id ∉ page.used) :
    ∃ high ≤ bound + records.length,
      Invariant (records.foldl QuotaGrid.populate page) high := by
  induction records generalizing page next bound with
  | nil => exact ⟨next, hnext, hpage⟩
  | cons data records ih =>
    rw [length_cons] at hbound
    obtain ⟨high, hlow, hhigh, hpopulated, hrest⟩ := hpage.populate hfirst
      (by omega) (by omega) hstored hdistinct hunused
    have htail : (explicitIds records).Nodup := hdistinct.sublist
      (((sublist_cons_self data records).filter hasId).map recordId)
    have hnear : high ≤ bound + 1 := by omega
    obtain ⟨final, hfinal, hinvariant⟩ := ih hpopulated (by omega) hnear
      (by omega) (by omega) hstored.tail htail hrest
    exact ⟨final, by rw [length_cons]; omega, hinvariant⟩

/-- A session on stored rules whose own ids are distinct.  The counter starts
at `first`, and the session is short enough for it to stay exact. -/
theorem session_sound {nextid rules : Bytes} (first limit : ℕ)
    {actions : List Action}
    (hdistinct : (explicitIds (records rules)).Nodup)
    (hstart : start engine nextid = engine.ofNat first)
    (hstored : Stored engine first limit (records rules))
    (hbound : max first limit + (records rules).length + actions.length ≤
      exactBound) :
    Sound (actions.foldl step (earlyInit engine nextid rules)) := by
  have hblank : Invariant (⟨start engine nextid, [], 0, [], [], none, false,
      none, [], [], []⟩ : Page engine) first := by
    constructor <;> simp [hstart]
  obtain ⟨next, hnext, hsetup⟩ := hblank.foldl_populate le_rfl
    (le_max_left first limit) (le_max_right first limit) (by omega) hstored
    hdistinct (by simp)
  obtain ⟨high, hrun⟩ := hsetup.clearFields.run actions (by omega)
  exact hrun.sound
end

/-- A rule from before there were ids, in front of one that has the id 1. -/
def mixedRules : Bytes :=
  bytes ("1<192.168.1.10<1048576<<<day<1<0<<0<first<<" ++
    ">1<192.168.1.11<1048576<<<day<1<0<<0<second<<<1")

def firstRule : List Bytes :=
  ["1", "192.168.1.10", "1048576", "", "", "day", "1", "0", "", "0", "first",
    "", ""].map bytes

def secondRule : List Bytes :=
  ["1", "192.168.1.11", "1048576", "", "", "day", "1", "0", "", "0", "second",
    "", "", "1"].map bytes

theorem records_mixedRules : records mixedRules = [firstRule, secondRule] := by
  decide +kernel

def otherHost : Form where
  on := bytes "1"
  scope := bytes "HOSTS"
  hosts := bytes "192.168.1.20"
  settings := ["1048576", "", "", "day", "1", "0", "", "0", "other", "", ""].map
    bytes
  settings_length := rfl

theorem session_sound_mixed :
    Sound ([Action.click 0, .press true otherHost, .up 1, .delete 2].foldl step
      (earlyInit Engine.natural (bytes "2") mixedRules)) := by
  refine session_sound 2 2 ?_ ?_ ?_ ?_
  · rw [records_mixedRules]
    decide
  · rfl
  · rw [records_mixedRules]
    refine ⟨?_, ?_⟩
    · have hone : Engine.natural.ReadsBelow (recordId secondRule) 2 :=
        .inr ⟨1, by decide, rfl⟩
      simpa [hasId, firstRule, secondRule] using ⟨by decide, hone⟩
    · have hone : Engine.natural.ReadsBelow (recordId secondRule) 2 :=
        .inr ⟨1, by decide, rfl⟩
      simpa using fun _ _ => hone
  · rw [records_mixedRules]
    decide

/-- Without a stored counter the first rule is given the id of the second. -/
theorem session_unnumbered_fails :
    (explicitIds (records mixedRules)).Nodup ∧
      ∀ engine : Engine, ¬ Sound (earlyInit engine [] mixedRules) := by
  refine ⟨by rw [records_mixedRules]; decide, fun engine hsound => ?_⟩
  have hstart : start engine [] = engine.ofNat 1 := by
    rw [start, engine.ofText_nil, engine.truthy_ofNat 0 (Nat.zero_le _)]
    rfl
  have hone : engine.text (engine.ofNat 1) = bytes "1" := by
    rw [engine.text_ofNat 1 (by decide), decimal]
    rfl
  have hdistinct := hsound.distinct
  rw [earlyInit, setup, records_mixedRules, hstart, foldl_cons, foldl_cons,
    foldl_nil, clearFields, map_id_populate_hasId (by decide),
    map_id_populate_lacksId (by decide), hone] at hdistinct
  change [bytes "1", recordId secondRule].Nodup at hdistinct
  revert hdistinct
  decide

end Tomato64.QuotaGrid
