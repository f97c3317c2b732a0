import Mathlib.Data.List.Nodup
import Mathlib.Logic.Function.Basic

/-!
# Checked assignments to a store

A request to change a store is a list of assignments, each with the verdict of
its own check.  They are worked off in order, and the first invalid one ends
the run where it stands.  The same list can be worked off twice: first without
writing, to learn whether every assignment is valid, and then with writing.

With distinct keys the order of the assignments does not matter, and the second
run has a closed form.
-/

namespace Tomato64.Assign

open List

variable {Key Value Label : Type*}

/-- A value for a key.  A refusal is reported under `label`, and `counts` tells
whether a change of this key is to be reported as one. -/
structure Assignment (Key Value Label : Type*) where
  label : Label
  key : Key
  value : Value
  valid : Bool
  counts : Bool

/-- A store of named values, not all of which are set. -/
abbrev Store (Key Value : Type*) := Key → Option Value

section Assigned

variable [DecidableEq Key]

/-- What is stored once every assignment is made. -/
def assigned (requests : List (Assignment Key Value Label))
    (store : Store Key Value) : Store Key Value :=
  fun key =>
    ((requests.find? fun request => request.key = key).map
      fun request => request.value).or (store key)

theorem assigned_nil (store : Store Key Value) :
    assigned ([] : List (Assignment Key Value Label)) store = store := by
  funext key
  simp [assigned]

theorem assigned_cons {request : Assignment Key Value Label}
    {others : List (Assignment Key Value Label)}
    (hfresh : request.key ∉ others.map Assignment.key)
    (store : Store Key Value) :
    assigned (request :: others) store =
      assigned others
        (Function.update store request.key (some request.value)) := by
  funext key
  by_cases hkey : request.key = key
  · subst hkey
    have hnone : (others.find? fun other => other.key = request.key) =
        none := by
      rw [find?_eq_none]
      intro other hother hsame
      exact hfresh (mem_map.2 ⟨other, hother, by simpa using hsame⟩)
    simp [assigned, hnone]
  · simp [assigned, hkey, Function.update_of_ne (Ne.symm hkey)]

theorem assigned_of_not_mem {requests : List (Assignment Key Value Label)}
    {key : Key} (hkey : key ∉ requests.map Assignment.key)
    (store : Store Key Value) : assigned requests store key = store key := by
  have hnone : (requests.find? fun request => request.key = key) = none := by
    rw [find?_eq_none]
    intro request hrequest hsame
    exact hkey (mem_map.2 ⟨request, hrequest, by simpa using hsame⟩)
  simp [assigned, hnone]

theorem assigned_of_mem {requests : List (Assignment Key Value Label)}
    (hkeys : (requests.map Assignment.key).Nodup)
    {request : Assignment Key Value Label} (hrequest : request ∈ requests)
    (store : Store Key Value) :
    assigned requests store request.key = some request.value := by
  induction requests generalizing store with
  | nil => cases hrequest
  | cons head others ih =>
    rw [map_cons, nodup_cons] at hkeys
    rw [assigned_cons hkeys.1]
    rcases mem_cons.1 hrequest with rfl | hrequest
    · rw [assigned_of_not_mem hkeys.1, Function.update_self]
    · exact ih hkeys.2 hrequest _

end Assigned

variable [DecidableEq Key] [DecidableEq Value]

/-- Works off the assignments.  The result is the label of the first invalid
one, or whether a change was reported so far. -/
def run (write : Bool) :
    List (Assignment Key Value Label) → Bool → Store Key Value →
      Except Label Bool × Store Key Value
  | [], dirty, store => (.ok dirty, store)
  | request :: others, dirty, store =>
    if request.valid then
      if write = true ∧ store request.key ≠ some request.value then
        run write others (dirty || request.counts)
          (Function.update store request.key (some request.value))
      else run write others dirty store
    else (.error request.label, store)

/-- Continues a run that has not ended with a refusal. -/
def andThen (first : Except Label Bool × Store Key Value)
    (next : Bool → Store Key Value → Except Label Bool × Store Key Value) :
    Except Label Bool × Store Key Value :=
  match first with
  | (.ok dirty, store) => next dirty store
  | (.error label, store) => (.error label, store)

variable (requests : List (Assignment Key Value Label))

/-- Whether an assignment that counts has another value than the store. -/
def changes (store : Store Key Value) : Bool :=
  requests.any fun request =>
    request.counts && decide (store request.key ≠ some request.value)

theorem run_append (write : Bool)
    (front back : List (Assignment Key Value Label)) (dirty : Bool)
    (store : Store Key Value) :
    run write (front ++ back) dirty store =
      andThen (run write front dirty store) (run write back) := by
  induction front generalizing dirty store with
  | nil => rfl
  | cons request others ih =>
    rw [cons_append, run, run]
    split
    · split
      · exact ih _ _
      · exact ih _ _
    · rfl

/-- A run without writing leaves the store alone. -/
theorem run_check_store (dirty : Bool) (store : Store Key Value) :
    (run false requests dirty store).2 = store := by
  induction requests with
  | nil => rfl
  | cons request others ih =>
    rw [run, if_neg (by simp : ¬ (false = true ∧ _))]
    split
    · exact ih
    · rfl

/-- Without writing nothing is reported, so the run ends well exactly when
every assignment is valid. -/
theorem run_check_eq_ok_iff {requests : List (Assignment Key Value Label)}
    {dirty result : Bool} {store : Store Key Value} :
    (run false requests dirty store).1 = .ok result ↔
      result = dirty ∧ ∀ request ∈ requests, request.valid = true := by
  induction requests with
  | nil =>
    rw [run, Except.ok.injEq]
    simp [eq_comm (a := dirty)]
  | cons request others ih =>
    rw [run, if_neg (by simp : ¬ (false = true ∧ _))]
    by_cases hvalid : request.valid = true
    · rw [if_pos hvalid, ih, forall_mem_cons]
      simp [hvalid]
    · simp [hvalid]

theorem changes_update {requests : List (Assignment Key Value Label)}
    {key : Key} (hfresh : key ∉ requests.map Assignment.key)
    (store : Store Key Value) (value : Option Value) :
    changes requests (Function.update store key value) =
      changes requests store := by
  rw [changes, changes, Bool.eq_iff_iff, any_eq_true, any_eq_true]
  have hsame : ∀ request ∈ requests,
      Function.update store key value request.key = store request.key := by
    intro request hrequest
    refine Function.update_of_ne ?_ _ _
    rintro rfl
    exact hfresh (mem_map_of_mem hrequest)
  constructor
  · rintro ⟨request, hrequest, hchange⟩
    exact ⟨request, hrequest, by rwa [hsame request hrequest] at hchange⟩
  · rintro ⟨request, hrequest, hchange⟩
    exact ⟨request, hrequest, by rwa [hsame request hrequest]⟩

/-- The closed form of a writing run over valid assignments of distinct
keys. -/
theorem run_write {requests : List (Assignment Key Value Label)}
    (hvalid : ∀ request ∈ requests, request.valid = true)
    (hkeys : (requests.map Assignment.key).Nodup) (dirty : Bool)
    (store : Store Key Value) :
    run true requests dirty store =
      (.ok (dirty || changes requests store), assigned requests store) := by
  induction requests generalizing dirty store with
  | nil => simp [run, changes, assigned_nil]
  | cons request others ih =>
    rw [forall_mem_cons] at hvalid
    rw [map_cons, nodup_cons] at hkeys
    rw [run, if_pos hvalid.1, assigned_cons hkeys.1]
    by_cases hstored : store request.key = some request.value
    · rw [if_neg (by simp [hstored]), ih hvalid.2 hkeys.2, ← hstored,
        Function.update_eq_self]
      simp [changes, hstored]
    · rw [if_pos ⟨rfl, hstored⟩, ih hvalid.2 hkeys.2, changes_update hkeys.1]
      simp [changes, hstored, Bool.or_assoc]

/-- A change is reported exactly when a key that counts has got another
value. -/
theorem changes_eq_true_iff {requests : List (Assignment Key Value Label)}
    (hkeys : (requests.map Assignment.key).Nodup) (store : Store Key Value) :
    changes requests store = true ↔
      ∃ request ∈ requests, request.counts = true ∧
        assigned requests store request.key ≠ store request.key := by
  rw [changes, any_eq_true]
  refine exists_congr fun request => and_congr_right fun hrequest => ?_
  rw [Bool.and_eq_true, decide_eq_true_eq, assigned_of_mem hkeys hrequest]
  exact and_congr_right fun _ => ne_comm

end Tomato64.Assign
