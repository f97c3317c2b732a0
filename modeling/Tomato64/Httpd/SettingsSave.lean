import Tomato64.Core.Assign
import Tomato64.Httpd.SettingsCheck

/-!
# Saving the settings page

`wo_tomato` saves a posted form in two passes over the same table.  The first
pass of `save_variables` only checks, the second one writes.  Behind the table
stand two sections of their own: the password, and the fifty rules of the
access restriction.

Every section is a run over checked assignments, so both passes are runs over
one list, and the second cannot stop where the first did not.
-/

namespace Tomato64.SettingsSave

open Assign List Scan SettingsCheck Text

/-- The variables stored, as `nvram_get` finds them. -/
abbrev Nvram := Store String Bytes

/-- The variables of the form, as `webcgi_get` finds them. -/
abbrev Posted := String → Option Bytes

/-- An entry of `nvset_list`.  The name is kept in pieces, as the macros of the
source join it. -/
structure Nvset where
  pieces : List String
  vtype : VType

def Nvset.name (v : Nvset) : String :=
  String.join v.pieces

def isTemp : VType → Bool
  | .temp => true
  | _ => false

variable (posted : Posted)

/-- `webcgi_nvram_set`: nothing for a refused value, and otherwise whether the
variable is dirty. -/
def webcgiNvramSet (v : Nvset) (name : String)
    (write : Bool) (nvram : Nvram) : Option Bool × Nvram :=
  match posted name with
  | none => (some false, nvram)
  | some text =>
    let value := normalise v.vtype text
    if valueOk v.vtype value then
      if write = true ∧ nvram name ≠ some value then
        (some (!isTemp v.vtype), Function.update nvram name (some value))
      else (some false, nvram)
    else (none, nvram)

/-- `msgf` with the name of a field. -/
def msgf (field : String) : String :=
  "The field \"" ++ field ++ "\" is invalid. Please report this problem."

/-- The loop over the table. -/
def saveTable (posted : Posted) (write : Bool) :
    List Nvset → Bool → Nvram → Except String Bool × Nvram
  | [], dirty, nvram => (.ok dirty, nvram)
  | v :: rest, dirty, nvram =>
    match webcgiNvramSet posted v v.name write nvram with
    | (none, nvram) => (.error (msgf v.name), nvram)
    | (some ok, nvram) => saveTable posted write rest (dirty || ok) nvram

/-- The text of a password field that was left as it was shown. -/
def unchangedPassword : Bytes :=
  bytes "**********"

variable (write : Bool)

def savePassword (dirty : Bool) (nvram : Nvram) : Except String Bool × Nvram :=
  match posted "set_password_1" with
  | none => (.ok dirty, nvram)
  | some first =>
    if first = unchangedPassword then (.ok dirty, nvram)
    else if posted "set_password_2" = some first then
      if write = true ∧ nvram "http_passwd" ≠ some first then
        (.ok true, Function.update nvram "http_passwd" (some first))
      else (.ok dirty, nvram)
    else (.error (msgf "password"), nvram)

def rruleName (index : ℕ) : String :=
  "rrule" ++ toString index

/-- The loop over the rules of the access restriction. -/
def saveRules (posted : Posted) (write : Bool) :
    List ℕ → Bool → Nvram → Except String Bool × Nvram
  | [], dirty, nvram => (.ok dirty, nvram)
  | index :: rest, dirty, nvram =>
    match posted (rruleName index) with
    | none => saveRules posted write rest dirty nvram
    | some rule =>
      if 2048 < rule.length then
        (.error (msgf (rruleName index)), nvram)
      else if write = true ∧ nvram (rruleName index) ≠ some rule then
        saveRules posted write rest true
          (Function.update nvram (rruleName index) (some rule))
      else saveRules posted write rest dirty nvram

def ruleCount : ℕ := 50

/-- The value that `save_variables` returns when it ends well. -/
def returnedBy :
    Except String Bool × Nvram → Except String Bool × Nvram
  | (.ok dirty, nvram) => (.ok (if write then dirty else true), nvram)
  | (.error message, nvram) => (.error message, nvram)

/-- `save_variables`.  The message is the one left in `resmsg` by a pass that
returns 0 before its end. -/
def saveVariables (nvsetList : List Nvset) (posted : Posted) (write : Bool)
    (nvram : Nvram) : Except String Bool × Nvram :=
  returnedBy write <|
    andThen
      (andThen (saveTable posted write nvsetList false nvram)
        (savePassword posted write))
      (saveRules posted write (range ruleCount))

/-! ## The request handler -/

/-- What `_service` asks for. -/
inductive ServiceRequest
  | restartEverything
  | execService (action : Bytes)

/-- What a request leaves behind. -/
structure Outcome where
  nvram : Nvram
  resmsg : Option String
  committed : Option Nvram
  service : Option ServiceRequest

/-- `webcgi_safeget` read as a number. -/
def safegetInt (name default : String) : ℤ :=
  atoi ((posted name).getD (bytes default))

/-- `nvram_commit_x` behind its condition. -/
def commitIf (wanted : Bool) (nvram : Nvram) : Option Nvram :=
  if wanted && atoi ((nvram "debug_nocommit").getD []) = 0 then some nvram
  else none

def requestedService : Option ServiceRequest :=
  match posted "_service" with
  | none => none
  | some [] => none
  | some (char :: action) =>
    if char = 42 then some .restartEverything
    else some (.execService (char :: action))

/-- `exec_service` hands the action to `init` in a variable. -/
def runService (service : Option ServiceRequest) (nvram : Nvram) : Nvram :=
  match service with
  | some (.execService action) =>
    Function.update nvram "action_service" (some action)
  | _ => nvram

/-- The part of `wo_tomato` behind the two passes. -/
def finishRequest (commit : Bool) (resmsg : Option String)
    (nvram : Nvram) : Outcome :=
  let forced := safegetInt posted "_force_commit" "0" ≠ 0
  let service := requestedService posted
  { nvram := runService service nvram
    resmsg := resmsg
    committed := commitIf (commit || forced) nvram
    service := service }

def woTomato (nvsetList : List Nvset) (posted : Posted) (nvram : Nvram) :
    Outcome :=
  let commit := decide (safegetInt posted "_commit" "1" ≠ 0)
  if safegetInt posted "_nvset" "1" ≠ 0 then
    match saveVariables nvsetList posted false nvram with
    | (.error message, checked) => ⟨checked, some message, none, none⟩
    | (.ok _, checked) =>
      match saveVariables nvsetList posted true checked with
      | (.error _, saved) =>
        finishRequest posted false (some "Settings saved.") saved
      | (.ok dirty, saved) =>
        finishRequest posted (dirty && commit) (some "Settings saved.")
          saved
  else finishRequest posted commit none nvram

/-! ## A stored value and its type -/

/-- The verdict on a field depends neither on the pass nor on what is
stored. -/
theorem webcgiNvramSet_verdict (v : Nvset) (name : String)
    (nvram other : Nvram) :
    (webcgiNvramSet posted v name true nvram).1.isSome =
      (webcgiNvramSet posted v name false other).1.isSome := by
  rw [webcgiNvramSet, webcgiNvramSet]
  cases posted name with
  | none => rfl
  | some text =>
    by_cases hvalid : valueOk v.vtype (normalise v.vtype text) = true
    · by_cases hstored : nvram name = some (normalise v.vtype text)
      · simp [hvalid, hstored]
      · simp [hvalid, hstored]
    · simp [hvalid]

/-- A field that is accepted for writing is stored as it was checked. -/
theorem webcgiNvramSet_stored {posted : Posted} {v : Nvset} {name : String}
    {nvram after : Nvram} {dirty : Bool} {text : Bytes}
    (hposted : posted name = some text)
    (hset : webcgiNvramSet posted v name true nvram = (some dirty, after)) :
    valueOk v.vtype (normalise v.vtype text) = true ∧
      after name = some (normalise v.vtype text) := by
  rw [webcgiNvramSet, hposted] at hset
  by_cases hvalid : valueOk v.vtype (normalise v.vtype text) = true
  swap
  · simp [hvalid] at hset
  refine ⟨hvalid, ?_⟩
  by_cases hstored : nvram name = some (normalise v.vtype text)
  · simp only [hvalid, hstored, if_true, ne_eq, not_true_eq_false, and_false,
      if_false, Prod.mk.injEq] at hset
    rw [← hset.2, hstored]
  · simp only [hvalid, hstored, if_true, ne_eq, not_false_eq_true, and_self,
      Prod.mk.injEq] at hset
    rw [← hset.2, Function.update_self]

/-- A value that was accepted and stored is of the declared type exactly when
the posted text had nothing that the conversions skip or leave unread. -/
theorem stored_wellTyped_iff {posted : Posted} {v : Nvset} {name : String}
    {nvram after : Nvram} {dirty : Bool} {text : Bytes}
    (hposted : posted name = some text)
    (hset : webcgiNvramSet posted v name true nvram = (some dirty, after)) :
    (∃ value, after name = some value ∧ WellTyped v.vtype value) ↔
      Strict v.vtype text := by
  obtain ⟨hvalid, hstored⟩ := webcgiNvramSet_stored hposted hset
  have hstrict : Strict v.vtype (normalise v.vtype text) ↔
      Strict v.vtype text := by
    cases v.vtype <;> rfl
  rw [← hstrict, ← wellTyped_iff_strict hvalid, hstored]
  simp

/-- A form with one text for every field. -/
def postedText (text : String) : Posted :=
  fun _ => some (bytes text)

/-- The verdict on a text for an entry, and what is stored for it in an empty
store. -/
def storedFor (v : Nvset) (text : String) : Option Bool × Option Bytes :=
  let result := webcgiNvramSet (postedText text) v v.name true fun _ => none
  (result.1, result.2 v.name)

def lanIpaddr : Nvset := ⟨["lan_ipaddr"], .ip true⟩

/-- An entry of a type that the table of the source does not use. -/
def hardwareAddress : Nvset := ⟨["hwaddr"], .mac⟩

def wanMtu : Nvset := ⟨["wan_mtu"], .range ⟨576, 1500, by decide⟩⟩

theorem stored_wellTyped_lanIpaddr :
    ∃ value, (storedFor lanIpaddr "192.168.1.1").2 = some value ∧
      WellTyped lanIpaddr.vtype value := by
  have hset : webcgiNvramSet (postedText "192.168.1.1") lanIpaddr
      lanIpaddr.name true (fun _ => none) =
        (some true, (webcgiNvramSet (postedText "192.168.1.1") lanIpaddr
          lanIpaddr.name true fun _ => none).2) :=
    Prod.ext (by decide) rfl
  exact (stored_wellTyped_iff rfl hset).2 (by
    simp only [lanIpaddr, Strict]
    decide)

/-- White space and signs in an address, text behind a hardware address, and
white space before a number are accepted and stored. -/
theorem stored_not_wellTyped :
    (storedFor lanIpaddr " 192.168.+1.1" =
        (some true, some (bytes " 192.168.+1.1")) ∧
      ¬ WellTyped lanIpaddr.vtype (bytes " 192.168.+1.1")) ∧
    (storedFor hardwareAddress "00:11:22:33:44:55;reboot" =
        (some true, some (bytes "00:11:22:33:44:55;reboot")) ∧
      ¬ WellTyped hardwareAddress.vtype (bytes "00:11:22:33:44:55;reboot")) ∧
    (storedFor wanMtu " 1400" = (some true, some (bytes " 1400")) ∧
      ¬ WellTyped wanMtu.vtype (bytes " 1400")) := by
  refine ⟨⟨by decide, ?_⟩, ⟨by decide, ?_⟩,
    by decide, ?_⟩
  · rw [wellTyped_iff_strict (by decide), lanIpaddr, Strict]
    decide
  · rw [wellTyped_iff_strict (by decide), hardwareAddress, Strict]
    decide
  · rw [wellTyped_iff_strict (by decide), wanMtu, Strict]
    intro hstrict
    exact absurd (hstrict 32 (by decide)) (by decide)

/-! ## Both passes are runs over the same assignments -/

/-- The assignments that strings, one name and one message stand behind. -/
abbrev Request := Assignment String Bytes String

def tableRequest (v : Nvset) : Option Request :=
  (posted v.name).map fun text =>
    { label := msgf v.name
      key := v.name
      value := normalise v.vtype text
      valid := valueOk v.vtype (normalise v.vtype text)
      counts := !isTemp v.vtype }

def passwordRequest : Option Request :=
  ((posted "set_password_1").filter (· ≠ unchangedPassword)).map fun first =>
    { label := msgf "password"
      key := "http_passwd"
      value := first
      valid := posted "set_password_2" = some first
      counts := true }

def ruleRequest (index : ℕ) : Option Request :=
  (posted (rruleName index)).map fun rule =>
    { label := msgf (rruleName index)
      key := rruleName index
      value := rule
      valid := !decide (2048 < rule.length)
      counts := true }

/-- All assignments of a form, in the order in which they are worked off. -/
def requests (nvsetList : List Nvset) (posted : Posted) : List Request :=
  nvsetList.filterMap (tableRequest posted) ++
    ((passwordRequest posted).toList ++
      (range ruleCount).filterMap (ruleRequest posted))

theorem saveTable_eq_run
    (nvsetList : List Nvset) (dirty : Bool) (nvram : Nvram) :
    saveTable posted write nvsetList dirty nvram =
      run write (nvsetList.filterMap (tableRequest posted)) dirty nvram := by
  induction nvsetList generalizing dirty nvram with
  | nil => rfl
  | cons v rest ih =>
    rw [saveTable, webcgiNvramSet, filterMap_cons, tableRequest]
    cases posted v.name with
    | none => simp [ih]
    | some text =>
      by_cases hvalid : valueOk v.vtype (normalise v.vtype text) = true
      · by_cases hwrite : write = true ∧
            nvram v.name ≠ some (normalise v.vtype text)
        · simp only [Option.map_some, run, if_pos hvalid, if_pos hwrite, ih]
        · simp only [Option.map_some, run, if_pos hvalid, if_neg hwrite,
            Bool.or_false, ih]
      · simp [run, hvalid]

theorem savePassword_eq_run (dirty : Bool)
    (nvram : Nvram) :
    savePassword posted write dirty nvram =
      run write (passwordRequest posted).toList dirty nvram := by
  rw [savePassword, passwordRequest]
  cases posted "set_password_1" with
  | none => rfl
  | some first =>
    by_cases hunchanged : first = unchangedPassword
    · simp [hunchanged, run, Option.filter]
    · simp [hunchanged, run, Option.filter]

theorem saveRules_eq_run (indices : List ℕ)
    (dirty : Bool) (nvram : Nvram) :
    saveRules posted write indices dirty nvram =
      run write (indices.filterMap (ruleRequest posted)) dirty nvram := by
  induction indices generalizing dirty nvram with
  | nil => rfl
  | cons index rest ih =>
    rw [saveRules, filterMap_cons, ruleRequest]
    cases posted (rruleName index) with
    | none => simp [ih]
    | some rule =>
      simp only [Option.map_some, run]
      by_cases hlong : 2048 < rule.length
      · simp [hlong]
      · simp [hlong, ih]

theorem saveVariables_eq_run (nvsetList : List Nvset) (posted : Posted)
    (write : Bool) (nvram : Nvram) :
    saveVariables nvsetList posted write nvram =
      returnedBy write (run write (requests nvsetList posted) false nvram) := by
  rw [saveVariables, requests, ← append_assoc, run_append, run_append,
    saveTable_eq_run]
  congr 2
  · congr 1
    funext dirty store
    exact savePassword_eq_run posted write dirty store
  · funext dirty store
    exact saveRules_eq_run posted write _ dirty store

/-! ## Tables with distinct names -/

/-- The names that a save may write. -/
def savedNames (nvsetList : List Nvset) : List String :=
  nvsetList.map Nvset.name ++
    "http_passwd" :: (range ruleCount).map rruleName

/-- A table in which no name is listed twice or used by the sections behind
the table. -/
structure NvsetTable where
  entries : List Nvset
  distinct : (savedNames entries).Nodup

theorem map_filterMap_sublist {α : Type*} {request : α → Option Request}
    {name : α → String} {values : List α}
    (hkey : ∀ value found, request value = some found →
      found.key = name value) :
    ((values.filterMap request).map Assignment.key).Sublist
      (values.map name) := by
  induction values with
  | nil => simp
  | cons value values ih =>
    rw [filterMap_cons, map_cons]
    cases hrequest : request value with
    | none => exact ih.cons _
    | some found =>
      rw [map_cons, hkey value found hrequest]
      exact ih.cons_cons _

variable {request : Request}

theorem key_tableRequest {posted : Posted} {v : Nvset}
    (hrequest : tableRequest posted v = some request) :
    request.key = v.name := by
  obtain ⟨text, _, rfl⟩ := Option.map_eq_some_iff.1 hrequest
  rfl

theorem key_passwordRequest {posted : Posted}
    (hrequest : passwordRequest posted = some request) :
    request.key = "http_passwd" ∧ request.counts = true := by
  obtain ⟨first, _, rfl⟩ := Option.map_eq_some_iff.1 hrequest
  exact ⟨rfl, rfl⟩

theorem key_ruleRequest {posted : Posted} {index : ℕ}
    (hrequest : ruleRequest posted index = some request) :
    request.key = rruleName index ∧ request.counts = true := by
  obtain ⟨rule, _, rfl⟩ := Option.map_eq_some_iff.1 hrequest
  exact ⟨rfl, rfl⟩

theorem keys_sublist (nvsetList : List Nvset) (posted : Posted) :
    ((requests nvsetList posted).map Assignment.key).Sublist
      (savedNames nvsetList) := by
  rw [requests, savedNames, map_append, map_append]
  refine (map_filterMap_sublist fun _ _ => key_tableRequest).append ?_
  have hrules : (((range ruleCount).filterMap
      (ruleRequest posted)).map Assignment.key).Sublist
        ((range ruleCount).map rruleName) :=
    map_filterMap_sublist fun _ _ hrequest => (key_ruleRequest hrequest).1
  cases hpassword : passwordRequest posted with
  | none => exact hrules.cons _
  | some request =>
    rw [Option.toList_some, map_singleton, (key_passwordRequest hpassword).1]
    exact hrules.cons_cons _

theorem NvsetTable.nodup_keys (table : NvsetTable) (posted : Posted) :
    ((requests table.entries posted).map Assignment.key).Nodup :=
  (keys_sublist table.entries posted).nodup table.distinct

/-! ## Saving is all or nothing -/

/-- The variables whose change makes the save dirty. -/
def Reported (nvsetList : List Nvset) (name : String) : Prop :=
  (∃ v ∈ nvsetList, v.name = name ∧ isTemp v.vtype = false) ∨
    name = "http_passwd" ∨ ∃ index < ruleCount, name = rruleName index

/-- What the second pass has to leave behind. -/
structure SavedExactly (nvsetList : List Nvset) (posted : Posted)
    (before after : Nvram) (dirty : Bool) : Prop where
  posted_stored : ∀ v ∈ nvsetList, ∀ text, posted v.name = some text →
    after v.name = some (normalise v.vtype text)
  not_posted_kept : ∀ v ∈ nvsetList, posted v.name = none →
    after v.name = before v.name
  others_kept : ∀ name, name ∉ savedNames nvsetList →
    after name = before name
  dirty_iff : dirty = true ↔
    ∃ name, after name ≠ before name ∧ Reported nvsetList name

/-- A form is saved as a whole or not at all. -/
structure AllOrNothing (nvsetList : List Nvset) (posted : Posted)
    (nvram : Nvram) : Prop where
  same_verdict : ∀ v ∈ nvsetList, ∀ before after : Nvram,
    (webcgiNvramSet posted v v.name true after).1.isSome =
      (webcgiNvramSet posted v v.name false before).1.isSome
  refused : ∀ message checked,
    saveVariables nvsetList posted false nvram = (.error message, checked) →
      safegetInt posted "_nvset" "1" ≠ 0 →
        woTomato nvsetList posted nvram = ⟨nvram, some message, none, none⟩
  accepted : ∀ result checked,
    saveVariables nvsetList posted false nvram = (.ok result, checked) →
      ∃ dirty saved,
        saveVariables nvsetList posted true nvram = (.ok dirty, saved) ∧
          SavedExactly nvsetList posted nvram saved dirty ∧
          (safegetInt posted "_nvset" "1" ≠ 0 →
            (woTomato nvsetList posted nvram).nvram =
              runService (requestedService posted) saved)

theorem mem_requests {nvsetList : List Nvset} {posted : Posted} :
    request ∈ requests nvsetList posted ↔
      (∃ v ∈ nvsetList, tableRequest posted v = some request) ∨
        passwordRequest posted = some request ∨
          ∃ index < ruleCount, ruleRequest posted index = some request := by
  simp [requests]

section Table

variable (table : NvsetTable) (posted : Posted)

theorem NvsetTable.name_injective {left right : Nvset}
    (hleft : left ∈ table.entries) (hright : right ∈ table.entries)
    (hname : left.name = right.name) : left = right :=
  inj_on_of_nodup_map (Nodup.of_append_left table.distinct)
    hleft hright hname

theorem NvsetTable.name_not_special {v : Nvset} (hv : v ∈ table.entries) :
    v.name ≠ "http_passwd" ∧ ∀ index < ruleCount, v.name ≠ rruleName index := by
  have hdisjoint := (nodup_append.1 table.distinct).2.2 v.name
    (mem_map_of_mem hv)
  refine ⟨hdisjoint _ mem_cons_self, fun index hindex => ?_⟩
  exact hdisjoint _ (mem_cons_of_mem _
    (mem_map_of_mem (mem_range.2 hindex)))

/-- An assignment counts when its variable is one that makes a save dirty. -/
theorem NvsetTable.counts_iff
    (hrequest : request ∈ requests table.entries posted) :
    request.counts = true ↔ Reported table.entries request.key := by
  rcases mem_requests.1 hrequest with
    ⟨v, hv, hfound⟩ | hfound | ⟨index, hindex, hfound⟩
  · have hcounts : request.counts = !isTemp v.vtype := by
      obtain ⟨text, _, rfl⟩ := Option.map_eq_some_iff.1 hfound
      rfl
    rw [hcounts, key_tableRequest hfound, Bool.not_eq_true']
    constructor
    · exact fun htemp => .inl ⟨v, hv, rfl, htemp⟩
    · rintro (⟨other, hother, hname, htemp⟩ | hpassword | ⟨index, hindex, hrule⟩)
      · rwa [table.name_injective hother hv hname] at htemp
      · exact absurd hpassword (table.name_not_special hv).1
      · exact absurd hrule ((table.name_not_special hv).2 index hindex)
  · obtain ⟨hkey, hcounts⟩ := key_passwordRequest hfound
    exact iff_of_true hcounts (.inr (.inl hkey))
  · obtain ⟨hkey, hcounts⟩ := key_ruleRequest hfound
    exact iff_of_true hcounts (.inr (.inr ⟨index, hindex, hkey⟩))

theorem NvsetTable.savedExactly (nvram : Nvram) :
    SavedExactly table.entries posted nvram
      (assigned (requests table.entries posted) nvram)
      (changes (requests table.entries posted) nvram) where
  posted_stored v hv text htext := by
    have hmem : _ ∈ requests table.entries posted :=
      mem_requests.2 (.inl ⟨v, hv, by rw [tableRequest, htext]; rfl⟩)
    exact assigned_of_mem (table.nodup_keys posted) hmem nvram
  not_posted_kept v hv hnone := by
    refine assigned_of_not_mem ?_ nvram
    rw [mem_map]
    rintro ⟨request, hrequest, hkey⟩
    rcases mem_requests.1 hrequest with
      ⟨other, hother, hfound⟩ | hfound | ⟨index, hindex, hfound⟩
    · rw [key_tableRequest hfound] at hkey
      rw [tableRequest, hkey, hnone] at hfound
      cases hfound
    · rw [(key_passwordRequest hfound).1] at hkey
      exact (table.name_not_special hv).1 hkey.symm
    · rw [(key_ruleRequest hfound).1] at hkey
      exact (table.name_not_special hv).2 index hindex hkey.symm
  others_kept name hname :=
    assigned_of_not_mem
      (fun hkey => hname ((keys_sublist table.entries posted).subset hkey)) nvram
  dirty_iff := by
    rw [changes_eq_true_iff (table.nodup_keys posted)]
    constructor
    · rintro ⟨request, hrequest, hcounts, hchanged⟩
      exact ⟨request.key, hchanged,
        (table.counts_iff posted hrequest).1 hcounts⟩
    rintro ⟨name, hchanged, hreported⟩
    -- a variable without an assignment would have kept its value
    have hkey : name ∈ (requests table.entries posted).map Assignment.key := by
      by_contra hnone
      exact hchanged (assigned_of_not_mem hnone nvram)
    obtain ⟨request, hrequest, rfl⟩ := mem_map.1 hkey
    exact ⟨request, hrequest,
      (table.counts_iff posted hrequest).2 hreported, hchanged⟩

/-- The first pass leaves the variables alone. -/
theorem saveVariables_check_store (nvsetList : List Nvset) (nvram : Nvram) :
    (saveVariables nvsetList posted false nvram).2 = nvram := by
  have hstore := run_check_store (requests nvsetList posted) false nvram
  rw [saveVariables_eq_run]
  cases hrun : run false (requests nvsetList posted) false nvram with
  | mk result store =>
    rw [hrun] at hstore
    cases result <;> exact hstore

theorem valid_of_saveVariables_check {nvsetList : List Nvset} {nvram : Nvram}
    {result : Bool}
    (hcheck : (saveVariables nvsetList posted false nvram).1 = .ok result) :
    ∀ request ∈ requests nvsetList posted, request.valid = true := by
  rw [saveVariables_eq_run] at hcheck
  cases hrun : run false (requests nvsetList posted) false nvram with
  | mk outcome store =>
    cases outcome with
    | error message =>
      rw [hrun] at hcheck
      cases hcheck
    | ok dirty =>
      exact (run_check_eq_ok_iff.1 (by rw [hrun])).2

/-- After a first pass without refusal the second one runs to its end. -/
theorem NvsetTable.saveVariables_write {nvram : Nvram} {result : Bool}
    (hcheck : (saveVariables table.entries posted false nvram).1 =
      .ok result) :
    saveVariables table.entries posted true nvram =
      (.ok (changes (requests table.entries posted) nvram),
        assigned (requests table.entries posted) nvram) := by
  rw [saveVariables_eq_run, run_write
    (valid_of_saveVariables_check posted hcheck) (table.nodup_keys posted)]
  rfl

theorem NvsetTable.allOrNothing (nvram : Nvram) :
    AllOrNothing table.entries posted nvram where
  same_verdict v _ before after :=
    webcgiNvramSet_verdict posted v v.name after before
  refused message checked hcheck hnvset := by
    have hstore := saveVariables_check_store posted table.entries nvram
    rw [hcheck] at hstore
    rw [woTomato, if_pos hnvset, hcheck]
    simp only at hstore ⊢
    rw [hstore]
  accepted result checked hcheck := by
    have hstore := saveVariables_check_store posted table.entries nvram
    have hwrite := table.saveVariables_write posted (by rw [hcheck])
    rw [hcheck] at hstore
    refine ⟨_, _, hwrite, table.savedExactly posted nvram, fun hnvset => ?_⟩
    subst hstore
    rw [woTomato, if_pos hnvset, hcheck]
    simp only [hwrite, finishRequest]

end Table

end Tomato64.SettingsSave
