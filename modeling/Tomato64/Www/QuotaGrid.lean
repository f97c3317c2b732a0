import Tomato64.Core.Number
import Tomato64.Core.Run

/-!
# The ids of the quota page

`quota-settings.asp` numbers its rules.  The counter starts at the stored
`quota_nextid`; while the grid is filled, a record without an id takes the
counter and a record with one lifts it.  Afterwards the editor below the grid
adds rows and replaces them, and the row panel moves and deletes them.
-/

namespace Tomato64.QuotaGrid

open Text Number

def recordIp (data : List Bytes) : Bytes :=
  data.getD 1 []

def recordId (data : List Bytes) : Bytes :=
  data.getD 13 []

/-- A `<tr>` with the record it carries. -/
structure Row where
  element : ℕ
  data : List Bytes

def Row.id (row : Row) : Bytes :=
  recordId row.data

/-- The controls that `fieldsToData` reads.  `settings` are the fields between
the address and the id. -/
structure Form where
  on : Bytes
  scope : Bytes
  hosts : Bytes
  settings : List Bytes
  settings_length : settings.length = 11

def Form.ip (engine : Engine) (form : Form) : Bytes :=
  if form.scope = bytes "HOSTS" then engine.trim form.hosts
  else if form.scope = bytes "HOSTS_SHARED" then
    bytes "SHARED:" ++ engine.trim form.hosts
  else form.scope

/-- An id that was issued, and the ids that rows had carried before. -/
structure Issue where
  id : Bytes
  before : List Bytes

/-- A record that was saved over another one. -/
structure Change where
  old : List Bytes
  new : List Bytes

/-- The page.  `saving` tells which function the button calls.  The last three
fields are a log of the session. -/
structure Page (engine : Engine) where
  nextid : engine.Value
  rows : List Row
  elements : ℕ
  hiddenId : Bytes
  hiddenIp : Bytes
  editRow : Option ℕ
  saving : Bool
  moving : Option ℕ
  used : List Bytes
  issues : List Issue
  changes : List Change

section
variable {engine : Engine}

/-- `(nvram.quota_nextid * 1) || 1` -/
def start (engine : Engine) (nextid : Bytes) : engine.Value :=
  if engine.truthy (engine.ofText nextid) = true then engine.ofText nextid
  else engine.ofNat 1

variable (page : Page engine)

def quotaNewId : Bytes × Page engine :=
  (engine.text page.nextid,
    { page with
      nextid := engine.succ page.nextid
      issues := ⟨engine.text page.nextid, page.used⟩ :: page.issues })

def quotaBumpId (id : Bytes) (page : Page engine) : Page engine :=
  let number := engine.ofText id
  if engine.isNaN number = false ∧ engine.ge number page.nextid = true then
    { page with nextid := engine.succ number }
  else page

/-- A new row, at the end of the table or at an index. -/
def insertData (index : Option ℕ) (data : List Bytes) (page : Page engine) :
    Page engine :=
  let row := ⟨page.elements, data⟩
  { page with
    rows := page.rows.insertIdx (index.getD page.rows.length) row
    elements := page.elements + 1
    used := recordId data :: page.used }

/-! ## Filling the grid -/

variable (data : List Bytes)

def hasId : Bool :=
  data.length = 14

def lacksId : Bool :=
  data.length = 11 || data.length = 13

def populate : Page engine :=
  if lacksId data then
    let padded := data ++ List.replicate (13 - data.length) []
    let issued := quotaNewId page
    insertData none (padded ++ [issued.1]) issued.2
  else if hasId data then
    insertData none data (quotaBumpId (recordId data) page)
  else page

def records (rules : Bytes) : List (List Bytes) :=
  if rules = [] then [] else (rules.splitOn 62).map (·.splitOn 60)

def clearFields : Page engine :=
  { page with hiddenId := [], hiddenIp := [], editRow := none, saving := false }

def setup (engine : Engine) (nextid rules : Bytes) : Page engine :=
  (records rules).foldl populate
    ⟨start engine nextid, [], 0, [], [], none, false, none, [], [], []⟩

def earlyInit (engine : Engine) (nextid rules : Bytes) : Page engine :=
  clearFields (setup engine nextid rules)

/-! ## The actions -/

variable (element : ℕ)

def Page.row? : Option Row :=
  page.rows.find? (·.element = element)

def Page.index : ℕ :=
  page.rows.findIdx (·.element = element)

variable (page : Page engine)

def edit : Page engine :=
  match page.row? element with
  | none => page
  | some row =>
    { page with
      hiddenId := row.id
      hiddenIp := recordIp row.data
      editRow := some element
      saving := true }

def rowDel : Page engine :=
  let page := if page.editRow = some element then clearFields page else page
  { page with
    moving := none
    rows := page.rows.filter (·.element ≠ element) }

def fieldsToData (form : Form) (page : Page engine) :
    List Bytes × Page engine :=
  let ip := form.ip engine
  let issued :=
    if page.hiddenId ≠ [] ∧ page.hiddenIp = ip then (page.hiddenId, page)
    else quotaNewId page
  (form.on :: ip :: form.settings ++ [issued.1], issued.2)

def addQuota (verified : Bool) (form : Form) (page : Page engine) :
    Page engine :=
  if verified then
    let filled := fieldsToData form page
    clearFields (insertData none filled.1 filled.2)
  else page

def saveQuota (verified : Bool) (form : Form) (page : Page engine) :
    Page engine :=
  match page.editRow.bind page.row? with
  | none => page
  | some row =>
    if verified then
      let filled := fieldsToData form page
      let logged := { filled.2 with
        changes := ⟨row.data, filled.1⟩ :: filled.2.changes }
      clearFields (insertData (some (page.index row.element)) filled.1
        (rowDel row.element logged))
    else page

/-- A row taken out of the table and put in again at an index. -/
def relocate (index : ℕ) (page : Page engine) : Page engine :=
  match page.row? element with
  | none => page
  | some row =>
    { page with
      rows := (page.rows.filter (·.element ≠ element)).insertIdx index row }

def rpUp : Page engine :=
  let page := { page with moving := none }
  if page.index element = 0 then page
  else relocate element (page.index element - 1) page

def rpDn : Page engine :=
  let page := { page with moving := none }
  if page.index element + 1 = page.rows.length then page
  else relocate element (page.index element + 1) page

def rpMo : Page engine :=
  { page with
    moving := if page.moving = some element then none else some element }

/-- A click on a row: the row that is being moved goes there, before it when it
comes from below and behind it when it comes from above. -/
def onClick : Page engine :=
  match page.moving with
  | none => edit element page
  | some moving =>
    let page := { page with moving := none }
    if moving = element then page
    else relocate moving (page.index element) page

/-- What the user does.  The panel and the click belong to a row. -/
inductive Action
  | press (verified : Bool) (form : Form)
  | clear
  | click (element : ℕ)
  | up (element : ℕ)
  | down (element : ℕ)
  | mark (element : ℕ)
  | delete (element : ℕ)

/-- The row that an action belongs to. -/
def Action.element? : Action → Option ℕ
  | .press _ _ | .clear => none
  | .click element | .up element | .down element | .mark element
  | .delete element => some element

def act : Action → Page engine
  | .press verified form =>
    if page.saving then saveQuota verified form page
    else addQuota verified form page
  | .clear => clearFields page
  | .click element => onClick element page
  | .up element => rpUp element page
  | .down element => rpDn element page
  | .mark element => rpMo element page
  | .delete element => rowDel element page

/-- Actions on rows that are not in the table do not happen. -/
def step (action : Action) : Page engine :=
  if action.element?.all fun element => (page.row? element).isSome then
    act page action
  else page
end

end Tomato64.QuotaGrid
