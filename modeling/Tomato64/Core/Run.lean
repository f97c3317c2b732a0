import Mathlib.Computability.StateTransition

/-!
# Rules for runs

Two shapes of C control flow recur in this development: straight code that
leaves at the first failure, and loops whose body is a partial step function.
The first is a computation in `Except`, inverted one bind at a time.  The
second is a `StateTransition`, for which a run halts when it reaches a state
without a successor.  A service that reacts to events folds its step function
over them.
-/

namespace Tomato64.Run

open List StateTransition

/-- A successful sequence is a successful first part whose result makes the
second part succeed. -/
theorem bind_eq_ok_iff {ε α β : Type} {first : Except ε α}
    {next : α → Except ε β} {result : β} :
    (first >>= next) = .ok result ↔
      ∃ value, first = .ok value ∧ next value = .ok result := by
  cases first with
  | error _ =>
    simp only [reduceCtorEq, false_and, exists_false, iff_false]
    intro hok
    cases hok
  | ok value => simp [bind, Except.bind]

variable {σ : Type*} {step : σ → Option σ}

/-- The loop with body `step` leaves after finitely many iterations. -/
def Halts (step : σ → Option σ) (start : σ) : Prop :=
  ∃ final, Reaches step start final ∧ step final = none

variable {state : σ}

theorem halts_of_step_eq_none (hstep : step state = none) : Halts step state :=
  ⟨state, Relation.ReflTransGen.refl, hstep⟩

theorem halts_of_halts_step {next : σ} (hstep : step state = some next)
    (hnext : Halts step next) : Halts step state := by
  obtain ⟨final, hreach, hfinal⟩ := hnext
  exact ⟨final, Relation.ReflTransGen.head hstep hreach, hfinal⟩

/-- An iteration that changes nothing is the only state of its run. -/
theorem eq_of_reaches_of_step_self {final : σ}
    (hstep : step state = some state) (hreach : Reaches step state final) :
    final = state := by
  induction hreach with
  | refl => rfl
  | tail _ hmem ih =>
    subst ih
    rw [Option.mem_def, hstep, Option.some.injEq] at hmem
    exact hmem.symm

theorem not_halts_of_reaches_stuck {start : σ}
    (hreach : Reaches step start state) (hstep : step state = some state) :
    ¬ Halts step start := by
  rintro ⟨final, hfinalReach, hfinal⟩
  -- The run is deterministic, so its last state lies before or behind the
  -- repeated one; both are impossible.
  rcases reaches_total hreach hfinalReach with hafter | hbefore
  · rw [eq_of_reaches_of_step_self hstep hafter, hstep] at hfinal
    cases hfinal
  rcases Relation.ReflTransGen.cases_head hbefore with rfl | ⟨_, hmem, _⟩
  · rw [hstep] at hfinal
    cases hfinal
  · rw [Option.mem_def, hfinal] at hmem
    cases hmem

/-- When every iteration either repeats its state or lowers a measure, a run
halts exactly when it never comes to a state that repeats itself. -/
theorem halts_iff_never_stuck (measure : σ → ℕ)
    (hstep : ∀ state next, step state = some next →
      next = state ∨ measure next < measure state) (start : σ) :
    Halts step start ↔
      ∀ state, Reaches step start state → step state ≠ some state := by
  constructor
  · intro hhalts state hreach hstuck
    exact not_halts_of_reaches_stuck hreach hstuck hhalts
  induction hbound : measure start using Nat.strong_induction_on
    generalizing start with
  | _ bound ih =>
    intro hnever
    cases hnext : step start with
    | none => exact halts_of_step_eq_none hnext
    | some next =>
      rcases hstep start next hnext with rfl | hless
      · exact absurd hnext (hnever next Relation.ReflTransGen.refl)
      · apply halts_of_halts_step hnext
        apply ih (measure next) (hbound ▸ hless) next rfl
        intro state hreach
        exact hnever state (Relation.ReflTransGen.head hnext hreach)

/-! ## Event by event -/

section
variable {State Event : Type*} {step : State → Event → State}
variable {ok : State → Event → Prop}

/-- Every event of a run meets a condition in the state that it finds. -/
def Along (step : State → Event → State) (ok : State → Event → Prop) :
    State → List Event → Prop
  | _, [] => True
  | state, event :: events =>
    ok state event ∧ Along step ok (step state event) events

variable {events : List Event} {state : State}

theorem along_of_forall {ok : Event → Prop}
    (hevents : ∀ event ∈ events, ok event) (state : State) :
    Along step (fun _ event => ok event) state events := by
  induction events generalizing state with
  | nil => trivial
  | cons event events ih =>
    rw [forall_mem_cons] at hevents
    exact ⟨hevents.1, ih hevents.2 (step state event)⟩

theorem along_append {front back : List Event} :
    Along step ok state (front ++ back) ↔ Along step ok state front ∧
      Along step ok (front.foldl step state) back := by
  induction front generalizing state with
  | nil => exact (true_and _).symm ▸ Iff.rfl
  | cons event front ih =>
    change (ok state event ∧
      Along step ok (step state event) (front ++ back)) ↔ _
    rw [ih, ← and_assoc]
    rfl

theorem Along.imp {weaker : State → Event → Prop}
    (himp : ∀ state, ∀ event ∈ events, ok state event → weaker state event)
    (halong : Along step ok state events) : Along step weaker state events := by
  induction events generalizing state with
  | nil => trivial
  | cons event events ih =>
    refine ⟨himp state event mem_cons_self halong.1, ih ?_ halong.2⟩
    exact fun state other hother =>
      himp state other (mem_cons_of_mem event hother)

variable {invariant : State → Prop}

/-- What such events keep holds at the end of the run. -/
theorem invariant_of_along
    (hstep : ∀ state event, invariant state → ok state event →
      invariant (step state event))
    {state : State} {events : List Event} (hstate : invariant state)
    (halong : Along step ok state events) :
    invariant (events.foldl step state) := by
  induction events generalizing state with
  | nil => exact hstate
  | cons event events ih =>
    exact ih (hstep state event hstate halong.1) halong.2

/-- Two conditions that agree wherever an invariant holds are met by the same
runs. -/
theorem along_congr {other : State → Event → Prop}
    (hkeep : ∀ state event, invariant state → ok state event →
      invariant (step state event)) (hiff : ∀ state event, invariant state →
      (other state event ↔ ok state event))
    {state : State} {events : List Event} (hstate : invariant state) :
    Along step other state events ↔ Along step ok state events := by
  induction events generalizing state with
  | nil => exact Iff.rfl
  | cons event events ih =>
    constructor
    · rintro ⟨hother, hrest⟩
      have hok := (hiff state event hstate).mp hother
      exact ⟨hok, (ih (hkeep state event hstate hok)).mp hrest⟩
    · rintro ⟨hok, hrest⟩
      exact ⟨(hiff state event hstate).mpr hok,
        (ih (hkeep state event hstate hok)).mpr hrest⟩

/-- When exactly these events keep an invariant, it holds throughout a run
exactly when all of its events are such. -/
theorem along_iff_invariant (hstep : ∀ state event, invariant state →
      (invariant (step state event) ↔ ok state event))
    {state : State} {events : List Event} (hstate : invariant state) :
    Along step ok state events ↔
      ∀ front, front <+: events → invariant (front.foldl step state) := by
  constructor
  · rintro halong front ⟨back, rfl⟩
    exact invariant_of_along
      (fun state event hinvariant => (hstep state event hinvariant).mpr)
      hstate (along_append.mp halong).1
  · intro hall
    induction events generalizing state with
    | nil => trivial
    | cons event events ih =>
      have hnext : invariant (step state event) := hall [event] ⟨events, rfl⟩
      refine ⟨(hstep state event hstate).mp hnext, ih hnext ?_⟩
      rintro front ⟨back, rfl⟩
      exact hall (event :: front) ⟨back, rfl⟩

end

/-! ## Loops -/

/-- A loop each round of which spoils the result unless its item fits. -/
theorem foldl_iff_forall {State Item : Type*} {step : State → Item → State}
    {ok invariant : State → Prop} {fits : Item → Prop}
    (hstep : ∀ state item, invariant state →
      (ok (step state item) ↔ ok state ∧ fits item) ∧
        invariant (step state item))
    {state : State} (hstate : invariant state) (items : List Item) :
    ok (items.foldl step state) ↔ ok state ∧ ∀ item ∈ items, fits item := by
  induction items generalizing state with
  | nil => simp
  | cons item items ih =>
    obtain ⟨hok, hnext⟩ := hstep state item hstate
    rw [foldl_cons, ih hnext, hok, forall_mem_cons, and_assoc]

/-- A field to which every round appends what its item gives. -/
theorem foldl_field {State Item Entry : Type*} {step : State → Item → State}
    (field : State → List Entry) {given : Item → List Entry}
    (hstep : ∀ state item, field (step state item) = field state ++ given item)
    (items : List Item) (state : State) :
    field (items.foldl step state) = field state ++ items.flatMap given := by
  induction items generalizing state with
  | nil => simp
  | cons item items ih =>
    rw [foldl_cons, ih, hstep, flatMap_cons, append_assoc]

/-- A loop whose rounds each change one part of the state, as a function of
this part: at the end every part has been changed once. -/
theorem foldl_parts {State Part Index : Type*} {step : State → Index → State}
    {part : Index → State → Part} {change : Index → Part → Part}
    (hown : ∀ state index,
      part index (step state index) = change index (part index state))
    (hother : ∀ state index other, other ≠ index →
      part other (step state index) = part other state)
    {indices : List Index} (hnodup : indices.Nodup) (state : State)
    {index : Index} (hindex : index ∈ indices) :
    part index (indices.foldl step state) =
      change index (part index state) := by
  have hkept (state : State) {indices : List Index}
      (habsent : index ∉ indices) :
      part index (indices.foldl step state) = part index state := by
    induction indices generalizing state with
    | nil => rfl
    | cons head tail ih =>
      rw [mem_cons, not_or] at habsent
      rw [foldl_cons, ih _ habsent.2, hother _ _ _ habsent.1]
  induction indices generalizing state with
  | nil => cases hindex
  | cons head tail ih =>
    rw [nodup_cons] at hnodup
    rw [foldl_cons]
    rcases mem_cons.mp hindex with rfl | htail
    · rw [hkept _ hnodup.1, hown]
    · have hne : index ≠ head := fun heq => hnodup.1 (heq ▸ htail)
      rw [ih hnodup.2 _ htail, hother _ _ _ hne]

/-- A loop that counts up, with a statement for each value of the counter. -/
theorem foldl_range_induction {State : Type*} (step : State → ℕ → State)
    (bound : ℕ) (motive : ℕ → State → Prop) {start : State}
    (hstart : motive 0 start)
    (hstep : ∀ count state, count < bound → motive count state →
      motive (count + 1) (step state count)) :
    motive bound ((range bound).foldl step start) := by
  suffices hall : ∀ count ≤ bound,
      motive count ((range count).foldl step start) from
    hall bound le_rfl
  intro count
  induction count with
  | zero => exact fun _ => hstart
  | succ count ih =>
    intro hcount
    rw [range_succ, foldl_append]
    exact hstep count _ hcount (ih (Nat.le_of_succ_le hcount))

/-- A loop over different keys that changes the value of each one, as a function
of this value, and notes whether there was something to do. -/
theorem foldl_update {Key Value : Type*} [DecidableEq Key]
    (change : Key → Value → Value) (hit : Key → Value → Bool)
    {keys : List Key} (hnodup : keys.Nodup) (store : Key → Value) (flag : Bool) :
    keys.foldl (fun state key =>
          (Function.update state.1 key (change key (state.1 key)),
            state.2 || hit key (state.1 key))) (store, flag) =
      (fun key => if key ∈ keys then change key (store key) else store key,
        flag || keys.any fun key => hit key (store key)) := by
  induction keys generalizing store flag with
  | nil => simp
  | cons first keys ih =>
    rw [nodup_cons] at hnodup
    have hkept : ∀ key ∈ keys,
        Function.update store first (change first (store first)) key =
          store key := by
      intro key hkey
      have hdiffer : key ≠ first := by
        rintro rfl
        exact hnodup.1 hkey
      exact Function.update_of_ne hdiffer _ _
    rw [foldl_cons, ih hnodup.2, any_cons, Bool.or_assoc]
    refine Prod.ext (funext fun key => ?_) ?_
    · by_cases hkey : key ∈ keys
      · simp only [hkey, if_true, mem_cons, or_true, hkept key hkey]
      · by_cases hfirst : key = first
        · subst hfirst
          simp [hkey]
        · simp [hkey, hfirst]
    have hany : (keys.any fun key => hit key
        (Function.update store first (change first (store first)) key)) =
          keys.any fun key => hit key (store key) := by
      rw [Bool.eq_iff_iff, any_eq_true, any_eq_true]
      constructor
      · rintro ⟨key, hkey, hhit⟩
        exact ⟨key, hkey, by rwa [hkept key hkey] at hhit⟩
      · rintro ⟨key, hkey, hhit⟩
        exact ⟨key, hkey, by rwa [hkept key hkey]⟩
    rw [hany]

/-! ## Loops with a scratch variable -/

section
variable {Scratch Item Out : Type*} {step : Scratch → Item → Scratch × Out}

/-- What the rounds of a loop put out, when each of them finds the scratch
variable as the one before has left it. -/
def outputs (step : Scratch → Item → Scratch × Out) :
    Scratch → List Item → List Out
  | _, [] => []
  | scratch, item :: items =>
    (step scratch item).2 :: outputs step (step scratch item).1 items

theorem exists_outputs_getElem? (scratch : Scratch) {items : List Item}
    {index : ℕ} {item : Item} (hitem : items[index]? = some item) :
    ∃ before, (outputs step scratch items)[index]? =
      some (step before item).2 := by
  induction items generalizing scratch index with
  | nil => cases hitem
  | cons first items ih =>
    cases index with
    | zero =>
      obtain rfl : first = item := Option.some.inj hitem
      exact ⟨scratch, rfl⟩
    | succ index => exact ih (step scratch first).1 hitem

/-- The rounds do not depend on each other exactly when none of them reads what
it finds in the scratch variable. -/
theorem outputs_independent_iff {items : List Item} :
    (∀ scratch other (index : ℕ) item, items[index]? = some item →
      (outputs step scratch items)[index]? =
        (outputs step other [item])[0]?) ↔
      ∀ item ∈ items, ∀ scratch other,
        (step scratch item).2 = (step other item).2 := by
  constructor
  · intro hsame item hitem scratch other
    obtain ⟨index, hindex⟩ := mem_iff_getElem?.mp hitem
    have hleft := hsame scratch scratch index item hindex
    have hright := hsame scratch other index item hindex
    exact Option.some.inj (hleft.symm.trans hright)
  · intro hsame scratch other index item hindex
    obtain ⟨before, hbefore⟩ : ∃ before, _ = some (step before item).2 :=
      exists_outputs_getElem? scratch hindex
    rw [hbefore, hsame item (mem_of_getElem? hindex) before other]
    rfl

end

/-! ## Loops that number what they use -/

section
variable {Text Item Out : Type*} {read : Text → Option Item}
variable {round : ℕ → Item → Option Out}

/-- A loop over texts that goes on at those it cannot use, and counts and
handles the others.  It fails with the first round that does. -/
def numbered (read : Text → Option Item) (round : ℕ → Item → Option Out) :
    ℕ → List Text → Option (List Out)
  | _, [] => some []
  | number, text :: texts =>
    match read text with
    | none => numbered read round number texts
    | some item =>
      (round number item).bind fun out =>
        (numbered read round (number + 1) texts).map (out :: ·)

variable {number : ℕ} {outs : List Out} {texts : List Text}

variable (houts : numbered read round number texts = some outs)
include houts

/-- The rounds of a loop that got through, by their position among the items
in use. -/
theorem numbered_getElem? (index : ℕ) :
    outs[index]? =
      (texts.filterMap read)[index]?.bind (round (number + index)) ∧
      outs.length = (texts.filterMap read).length := by
  induction texts generalizing number index outs with
  | nil =>
    obtain rfl : [] = outs := Option.some.inj houts
    exact ⟨rfl, rfl⟩
  | cons text texts ih =>
    rw [numbered] at houts
    cases hread : read text with
    | none =>
      rw [hread] at houts
      rw [filterMap_cons_none hread]
      exact ih houts index
    | some item =>
      rw [hread] at houts
      obtain ⟨out, hout, houts⟩ := Option.bind_eq_some_iff.mp houts
      obtain ⟨others, hothers, rfl⟩ := Option.map_eq_some_iff.mp houts
      rw [filterMap_cons_some hread]
      refine ⟨?_, congrArg (· + 1) (ih hothers 0).2⟩
      cases index with
      | zero => exact hout.symm
      | succ index =>
        rw [getElem?_cons_succ, getElem?_cons_succ,
          (ih hothers index).1, Nat.add_right_comm, Nat.add_assoc]

omit houts in
/-- A loop gets through exactly when each of its rounds does. -/
theorem exists_numbered_iff :
    (∃ outs, numbered read round number texts = some outs) ↔
      ∀ index item, (texts.filterMap read)[index]? = some item →
        ∃ out, round (number + index) item = some out := by
  induction texts generalizing number with
  | nil =>
    constructor
    · intro _ index item hitem
      cases hitem
    · intro _
      exact ⟨[], rfl⟩
  | cons text texts ih =>
    rw [numbered]
    cases hread : read text with
    | none =>
      rw [filterMap_cons_none hread]
      exact ih
    | some item =>
      rw [filterMap_cons_some hread]
      constructor
      · rintro ⟨outs, houts⟩ index other hother
        obtain ⟨out, hout, houts⟩ := Option.bind_eq_some_iff.mp houts
        obtain ⟨others, hothers, -⟩ := Option.map_eq_some_iff.mp houts
        cases index with
        | zero =>
          obtain rfl : item = other := Option.some.inj hother
          exact ⟨out, hout⟩
        | succ index =>
          rw [← Nat.add_assoc, Nat.add_right_comm]
          exact ih.mp ⟨others, hothers⟩ index other hother
      · intro hround
        obtain ⟨out, hout⟩ := hround 0 item rfl
        obtain ⟨others, hothers⟩ := ih.mpr fun index other hother => by
          have hnext := hround (index + 1) other hother
          rwa [← Nat.add_assoc, Nat.add_right_comm] at hnext
        refine ⟨out :: others, ?_⟩
        rw [Nat.add_zero] at hout
        dsimp only
        rw [hout, Option.bind_some, hothers, Option.map_some]

theorem exists_round_of_numbered {index : ℕ}
    {item : Item} (hitem : (texts.filterMap read)[index]? = some item) :
    ∃ out, round (number + index) item = some out ∧ outs[index]? = some out := by
  obtain ⟨out, hout⟩ := exists_numbered_iff.mp ⟨outs, houts⟩ index item hitem
  refine ⟨out, hout, ?_⟩
  rw [(numbered_getElem? houts index).1, hitem, Option.bind_some, hout]

/-- What a loop has put out comes from the round of an item in use. -/
theorem exists_of_mem_numbered {out : Out} (hout : out ∈ outs) :
    ∃ index item, (texts.filterMap read)[index]? = some item ∧
      round (number + index) item = some out := by
  obtain ⟨index, hindex⟩ := mem_iff_getElem?.mp hout
  rw [(numbered_getElem? houts index).1] at hindex
  obtain ⟨item, hitem, hround⟩ := Option.bind_eq_some_iff.mp hindex
  exact ⟨index, item, hitem, hround⟩

omit houts

/-- If each round puts out some of the values that its number has, the loop puts
out some of the values of its numbers. -/
theorem flatMap_numbered_sublist {Value : Type*} {values : Out → List Value}
    {allowed : ℕ → List Value}
    (hround : ∀ number item out, round number item = some out →
      (values out).Sublist (allowed number))
    {number : ℕ} {texts : List Text} {outs : List Out}
    (houts : numbered read round number texts = some outs) :
    (outs.flatMap values).Sublist
      ((range' number outs.length).flatMap allowed) := by
  induction texts generalizing number outs with
  | nil =>
    obtain rfl : [] = outs := Option.some.inj houts
    exact Sublist.refl []
  | cons text texts ih =>
    rw [numbered] at houts
    cases hread : read text with
    | none =>
      rw [hread] at houts
      exact ih houts
    | some item =>
      rw [hread] at houts
      obtain ⟨out, hout, houts⟩ := Option.bind_eq_some_iff.mp houts
      obtain ⟨others, hothers, rfl⟩ := Option.map_eq_some_iff.mp houts
      rw [length_cons, range'_succ, flatMap_cons, flatMap_cons]
      exact (hround number item out hout).append (ih hothers)

end

/-! ## Events that can fail -/

section
variable {State Event : Type} {step : State → Event → Option State}
variable {ok : State → Event → Prop}

/-- Every event of a run meets a condition in the state that it finds, as far
as the run gets. -/
def Guarded (step : State → Event → Option State)
    (ok : State → Event → Prop) : State → List Event → Prop
  | _, [] => True
  | state, event :: events => ok state event ∧
      ∀ next, step state event = some next → Guarded step ok next events

variable {events : List Event}

theorem guarded_of_forall {ok : Event → Prop}
    (hevents : ∀ event ∈ events, ok event) (state : State) :
    Guarded step (fun _ event => ok event) state events := by
  induction events generalizing state with
  | nil => trivial
  | cons event events ih =>
    rw [forall_mem_cons] at hevents
    exact ⟨hevents.1, fun next _ => ih hevents.2 next⟩

/-- Such a run gets to its end, and what the events keep holds there. -/
theorem exists_run_of_guarded (step : State → Event → Option State)
    (ok : State → Event → Prop) (invariant : State → Prop)
    (hstep : ∀ state event, invariant state → ok state event →
      ∃ next, step state event = some next ∧ invariant next)
    {state : State} (hstate : invariant state)
    (hguarded : Guarded step ok state events) :
    ∃ final, events.foldlM step state = some final ∧ invariant final := by
  induction events generalizing state with
  | nil => exact ⟨state, rfl, hstate⟩
  | cons event events ih =>
    obtain ⟨next, hnext, hinvariant⟩ := hstep state event hstate hguarded.1
    obtain ⟨final, hfinal, hkept⟩ := ih hinvariant (hguarded.2 next hnext)
    refine ⟨final, ?_, hkept⟩
    rw [foldlM_cons, hnext]
    exact hfinal

/-- The conditions of two guards hold together. -/
theorem Guarded.and {other : State → Event → Prop} {state : State}
    (hleft : Guarded step ok state events)
    (hright : Guarded step other state events) :
    Guarded step (fun state event => ok state event ∧ other state event)
      state events := by
  induction events generalizing state with
  | nil => trivial
  | cons event events ih =>
    exact ⟨⟨hleft.1, hright.1⟩, fun next hnext =>
      ih (hleft.2 next hnext) (hright.2 next hnext)⟩

end

/-! ## Results with a fault left open -/

section
variable {σ τ ε Event : Type}

/-- A computation succeeds with a property, unless it ends with one fault. -/
def OkOr (property : σ → Prop) (fault : ε) (result : Except ε σ) : Prop :=
  (∃ value, result = .ok value ∧ property value) ∨ result = .error fault

variable {property : σ → Prop}

theorem OkOr.bind {goal : τ → Prop} {fault : ε} {first : Except ε σ}
    {next : σ → Except ε τ} (hfirst : OkOr property fault first)
    (hnext : ∀ value, property value → OkOr goal fault (next value)) :
    OkOr goal fault (first >>= next) := by
  rcases hfirst with ⟨value, rfl, hvalue⟩ | rfl
  · exact hnext value hvalue
  · exact .inr rfl

theorem OkOr.of_ok {fault : ε} {result : Except ε σ} {value : σ}
    (hresult : OkOr property fault result) (hok : result = .ok value) :
    property value := by
  subst hok
  rcases hresult with ⟨_, hsame, hvalue⟩ | hfault
  · rwa [Except.ok.inj hsame]
  · cases hfault

theorem OkOr.and {left right : σ → Prop} {fault other : ε}
    {result : Except ε σ} (hleft : OkOr left fault result)
    (hright : OkOr right other result) (hdiffer : fault ≠ other) :
    ∃ value, result = .ok value ∧ left value ∧ right value := by
  rcases hleft with ⟨value, rfl, hleft⟩ | rfl
  · rcases hright with ⟨_, hsame, hright⟩ | hfault
    · obtain rfl := Except.ok.inj hsame
      exact ⟨value, rfl, hleft, hright⟩
    · cases hfault
  · rcases hright with ⟨_, hok, -⟩ | hfault
    · cases hok
    · exact (hdiffer (Except.error.inj hfault)).elim

/-- What the events of a run keep, as far as it gets, holds at its end. -/
theorem okOr_foldlM (step : σ → Event → Except ε σ) (ok : σ → Event → Prop)
    (property : σ → Prop) (fault : ε)
    (hstep : ∀ state event, property state → ok state event →
      OkOr property fault (step state event))
    {state : σ} {events : List Event} (hstate : property state) (hguarded :
      Guarded (fun state event => (step state event).toOption) ok state
        events) : OkOr property fault (events.foldlM step state) := by
  induction events generalizing state with
  | nil => exact .inl ⟨state, rfl, hstate⟩
  | cons event events ih =>
    rw [foldlM_cons]
    rcases hstep state event hstate hguarded.1 with
      ⟨next, hnext, hkept⟩ | hfault
    · rw [hnext]
      exact ih hkept (hguarded.2 next (congrArg Except.toOption hnext))
    · rw [hfault]
      exact .inr rfl

/-- When no event fails, the run has a result. -/
theorem exists_foldlM_ok {step : σ → Event → Except ε σ} {property : σ → Prop}
    (hstep : ∀ state event, property state →
      ∃ next, step state event = .ok next ∧ property next)
    {state : σ} (events : List Event) (hstate : property state) :
    ∃ final, events.foldlM step state = .ok final ∧ property final := by
  induction events generalizing state with
  | nil => exact ⟨state, rfl, hstate⟩
  | cons event events ih =>
    obtain ⟨next, hnext, hkept⟩ := hstep state event hstate
    obtain ⟨final, hfinal, hproperty⟩ := ih hkept
    refine ⟨final, ?_, hproperty⟩
    rw [foldlM_cons, hnext]
    exact hfinal

/-- What each event keeps that does not fail, holds at the end. -/
theorem invariant_of_foldlM {step : σ → Event → Except ε σ}
    {property : σ → Prop} (hstep : ∀ state event next, property state →
      step state event = .ok next → property next)
    {state final : σ} {events : List Event} (hstate : property state)
    (hfinal : events.foldlM step state = .ok final) : property final := by
  induction events generalizing state with
  | nil =>
    obtain rfl := Except.ok.inj hfinal
    exact hstate
  | cons event events ih =>
    obtain ⟨next, hnext, hfinal⟩ := bind_eq_ok_iff.mp hfinal
    exact ih (hstep state event next hstate hnext) hfinal

end

end Tomato64.Run
