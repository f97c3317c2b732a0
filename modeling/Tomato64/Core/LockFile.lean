import Tomato64.Core.Run

/-!
# Locks made of a file

A file whose presence means that a lock is free.  A process takes the lock by
removing the file, tries again every second when there is none, and enters
without it after a number of tries.  It leaves by creating the file.

Processes run straight programs of such steps.  Between them they work, sleep,
or ask a server process for something and wait for the answer.  Time passes
in seconds, and work may take any time.
-/

namespace Tomato64.LockFile

open Run

inductive Instr
  | lock
  | unlock
  | work
  | sleep (seconds : ℕ)
  | ask
  deriving DecidableEq, Repr

/-- What a process has still to do, the tries it has left at a lock, the
seconds it sleeps, whether it waits for an answer, and the number of locked
sections it is in. -/
structure Proc where
  todo : List Instr
  tries : Option ℕ
  delay : ℕ
  asking : Bool
  depth : ℕ
  deriving DecidableEq, Repr

structure State where
  free : Bool
  procs : ℕ → Proc

def start : State where
  free := true
  procs := fun _ => ⟨[], none, 0, false, 0⟩

/-- The next step of a process that gives up at a lock after `limit` tries. -/
def advance (limit : ℕ) (free : Bool) (proc : Proc) : Bool × Proc :=
  if 0 < proc.delay ∨ proc.asking = true then (free, proc)
  else
    match proc.todo with
    | [] => (free, proc)
    | .lock :: rest =>
      if free = true ∨ proc.tries.getD limit ≤ 1 then
        (false, { proc with
          todo := rest, tries := none, depth := proc.depth + 1 })
      else
        (free, { proc with
          tries := some (proc.tries.getD limit - 1), delay := 1 })
    | .unlock :: rest =>
      (true, { proc with todo := rest, depth := proc.depth - 1 })
    | .work :: rest => (free, { proc with todo := rest })
    | .sleep seconds :: rest =>
      (free, { proc with todo := rest, delay := seconds })
    | .ask :: rest => (free, { proc with todo := rest, asking := true })

/-- A process begins a job or takes a step, its question is answered or given
up, or a second passes. -/
inductive Event (Job : Type)
  | begin (pid : ℕ) (job : Job)
  | step (pid : ℕ)
  | answer (pid : ℕ)
  | tick

variable {Job : Type} (program : ℕ → Job → List Instr) (limit : ℕ → ℕ)
  (state : State)

def State.set (pid : ℕ) (proc : Proc) : State :=
  { state with procs := Function.update state.procs pid proc }

def step : Event Job → State
  | .begin pid job =>
    if (state.procs pid).todo = [] ∧ (state.procs pid).asking = false then
      state.set pid { state.procs pid with todo := program pid job }
    else state
  | .step pid =>
    let (free, proc) := advance (limit pid) state.free (state.procs pid)
    { state.set pid proc with free := free }
  | .answer pid => state.set pid { state.procs pid with asking := false }
  | .tick =>
    { state with
      procs := fun pid =>
        { state.procs pid with delay := (state.procs pid).delay - 1 } }

/-- No two processes are in a locked section, none is in two of them or waits
for the lock in one, and the server does not wait for the lock while the
process that has it waits for the server. -/
structure Safe (server : ℕ) (state : State) : Prop where
  exclusive : ∀ left right, 0 < (state.procs left).depth →
    0 < (state.procs right).depth → left = right
  single : ∀ pid, (state.procs pid).depth ≤ 1
  holding : ∀ pid, (state.procs pid).tries ≠ none →
    (state.procs pid).depth = 0
  asked : ∀ pid, 0 < (state.procs pid).depth →
    (state.procs pid).asking = true → (state.procs server).tries = none

/-! ## Programs without nested sections -/

/-- The sections of a program are not nested, and nothing is asked for inside
of them. -/
def flat : Bool → List Instr → Bool
  | inside, [] => !inside
  | inside, .lock :: rest => !inside && flat true rest
  | inside, .unlock :: rest => inside && flat false rest
  | inside, .work :: rest => flat inside rest
  | inside, .sleep _ :: rest => flat inside rest
  | inside, .ask :: rest => !inside && flat inside rest

/-- Such programs may follow one another. -/
theorem flat_append {inside : Bool} {front back : List Instr}
    (hfront : flat inside front = true) (hback : flat false back = true) :
    flat inside (front ++ back) = true := by
  induction front generalizing inside with
  | nil =>
    rw [flat, Bool.not_eq_true'] at hfront
    rwa [hfront, List.nil_append]
  | cons instr front ih =>
    cases instr with
    | lock =>
      rw [flat, Bool.and_eq_true] at hfront
      rw [List.cons_append, flat, Bool.and_eq_true]
      exact ⟨hfront.1, ih hfront.2⟩
    | unlock =>
      rw [flat, Bool.and_eq_true] at hfront
      rw [List.cons_append, flat, Bool.and_eq_true]
      exact ⟨hfront.1, ih hfront.2⟩
    | work => exact ih hfront
    | sleep seconds => exact ih hfront
    | ask =>
      rw [flat, Bool.and_eq_true] at hfront
      rw [List.cons_append, flat, Bool.and_eq_true]
      exact ⟨hfront.1, ih hfront.2⟩

/-- Jobs whose programs are such, and waits for the lock that find it before
the last try. -/
def Patient : Event Job → Prop
  | .begin pid job => flat false (program pid job) = true
  | .step pid => (state.procs pid).delay = 0 →
      (state.procs pid).todo.head? = some .lock →
        state.free = true ∨ 1 < (state.procs pid).tries.getD (limit pid)
  | _ => True

/-! ## What a step does -/

/-- A process that keeps to a flat program. -/
structure ProcOk (proc : Proc) : Prop where
  depth_le : proc.depth ≤ 1
  flat_todo : flat (proc.depth != 0) proc.todo = true
  waiting : proc.tries ≠ none → proc.depth = 0
  asking : proc.asking = true → proc.depth = 0

/-- The lock is free only when no process is in a section, and one at most
is. -/
structure Invariant (state : State) : Prop where
  ok : ∀ pid, ProcOk (state.procs pid)
  free : state.free = true → ∀ pid, (state.procs pid).depth = 0
  exclusive : ∀ left right, (state.procs left).depth ≠ 0 →
    (state.procs right).depth ≠ 0 → left = right

theorem invariant_start : Invariant start where
  ok _ := ⟨Nat.zero_le 1, rfl, fun _ => rfl, fun _ => rfl⟩
  free _ _ := rfl
  exclusive _ _ hleft := absurd rfl hleft

theorem safe_of_invariant {state : State} (hstate : Invariant state)
    (server : ℕ) : Safe server state where
  exclusive left right hleft hright :=
    hstate.exclusive left right (Nat.pos_iff_ne_zero.mp hleft)
      (Nat.pos_iff_ne_zero.mp hright)
  single pid := (hstate.ok pid).depth_le
  holding pid := (hstate.ok pid).waiting
  asked pid hdepth hasking :=
    absurd ((hstate.ok pid).asking hasking) (Nat.pos_iff_ne_zero.mp hdepth)

/-- A process keeps its place, enters with the lock, or leaves. -/
theorem advance_cases {limit : ℕ} {free : Bool} {proc : Proc}
    (hproc : ProcOk proc)
    (hpatient : proc.delay = 0 → proc.todo.head? = some .lock →
      free = true ∨ 1 < proc.tries.getD limit) :
    ProcOk (advance limit free proc).2 ∧ ((advance limit free proc).1 = free ∧
          (advance limit free proc).2.depth = proc.depth ∨
        free = true ∧ (advance limit free proc).1 = false ∨
        proc.depth ≠ 0 ∧ (advance limit free proc).2.depth = 0) := by
  rw [advance]
  split
  · exact ⟨hproc, Or.inl ⟨rfl, rfl⟩⟩
  next hready =>
  rw [not_or, Nat.pos_iff_ne_zero, not_not] at hready
  have hflat := hproc.flat_todo
  split
  · exact ⟨hproc, Or.inl ⟨rfl, rfl⟩⟩
  · next rest htodo =>
    rw [htodo, flat, Bool.and_eq_true, Bool.not_eq_true',
      bne_eq_false_iff_eq] at hflat
    split
    swap
    · refine ⟨⟨hproc.depth_le, hproc.flat_todo, fun _ => hflat.1,
        hproc.asking⟩, Or.inl ⟨rfl, rfl⟩⟩
    next henter =>
    have hfree : free = true := by
      rcases hpatient hready.1 (by rw [htodo]; rfl) with hfree | hleft
      · exact hfree
      · exact henter.resolve_right (by omega)
    refine ⟨⟨?_, ?_, ?_, ?_⟩, Or.inr (Or.inl ⟨hfree, rfl⟩)⟩
    · simp [hflat.1]
    · simp only [hflat.1]
      exact hflat.2
    · intro hsome
      exact absurd rfl hsome
    · intro hasking
      exact absurd hasking hready.2
  · next rest htodo =>
    rw [htodo, flat, Bool.and_eq_true, bne_iff_ne] at hflat
    have hdepth : proc.depth - 1 = 0 := by
      have hle := hproc.depth_le
      omega
    refine ⟨⟨?_, ?_, fun _ => hdepth, fun _ => hdepth⟩,
      Or.inr (Or.inr ⟨hflat.1, hdepth⟩)⟩
    · simp [hdepth]
    · simp only [hdepth]
      exact hflat.2
  · next rest htodo =>
    rw [htodo, flat] at hflat
    exact ⟨⟨hproc.depth_le, hflat, hproc.waiting, hproc.asking⟩,
      Or.inl ⟨rfl, rfl⟩⟩
  · next seconds rest htodo =>
    rw [htodo, flat] at hflat
    exact ⟨⟨hproc.depth_le, hflat, hproc.waiting, hproc.asking⟩,
      Or.inl ⟨rfl, rfl⟩⟩
  · next rest htodo =>
    rw [htodo, flat, Bool.and_eq_true, Bool.not_eq_true',
      bne_eq_false_iff_eq] at hflat
    exact ⟨⟨hproc.depth_le, hflat.2, hproc.waiting, fun _ => hflat.1⟩,
      Or.inl ⟨rfl, rfl⟩⟩

section
variable {program limit} {state : State} {pid other : ℕ} {proc : Proc}

theorem set_procs_self : (state.set pid proc).procs pid = proc := by
  change Function.update state.procs pid proc pid = proc
  rw [Function.update_self]

theorem set_procs_of_ne (hne : other ≠ pid) :
    (state.set pid proc).procs other = state.procs other := by
  change Function.update state.procs pid proc other = _
  rw [Function.update_of_ne hne]

/-- A process that stays where it is. -/
theorem Invariant.set_of_depth_eq (hstate : Invariant state)
    (hproc : ProcOk proc) (hdepth : proc.depth = (state.procs pid).depth) :
    Invariant (state.set pid proc) := by
  have hdepths (other : ℕ) : ((state.set pid proc).procs other).depth =
      (state.procs other).depth := by
    by_cases hsame : other = pid
    · rw [hsame, set_procs_self, hdepth]
    · rw [set_procs_of_ne hsame]
  refine ⟨fun other => ?_, fun hfree other => ?_, fun left right => ?_⟩
  · by_cases hsame : other = pid
    · rwa [hsame, set_procs_self]
    · rw [set_procs_of_ne hsame]
      exact hstate.ok other
  · rw [hdepths]
    exact hstate.free hfree other
  · rw [hdepths, hdepths]
    exact hstate.exclusive left right

theorem invariant_advance (hstate : Invariant state) (free : Bool)
    (hok : ProcOk proc)
    (hcases : free = state.free ∧ proc.depth = (state.procs pid).depth ∨
      state.free = true ∧ free = false ∨
      (state.procs pid).depth ≠ 0 ∧ proc.depth = 0) :
    Invariant { state.set pid proc with free := free } := by
  have hprocs (other : ℕ) : ProcOk ((state.set pid proc).procs other) := by
    by_cases hsame : other = pid
    · rwa [hsame, set_procs_self]
    · rw [set_procs_of_ne hsame]
      exact hstate.ok other
  rcases hcases with ⟨rfl, hdepth⟩ | ⟨hfree, rfl⟩ | ⟨hinside, hdepth⟩
  · exact hstate.set_of_depth_eq hok hdepth
  · -- nobody was inside
    have hsame (other : ℕ)
        (hother : ((state.set pid proc).procs other).depth ≠ 0) :
        other = pid := by
      by_contra hne
      rw [set_procs_of_ne hne] at hother
      exact hother (hstate.free hfree other)
    refine ⟨hprocs, fun htrue => absurd htrue Bool.false_ne_true, ?_⟩
    intro left right hleft hright
    rw [hsame left hleft, hsame right hright]
  · -- nobody else was inside
    have hzero (other : ℕ) :
        ((state.set pid proc).procs other).depth = 0 := by
      by_cases hsame : other = pid
      · rw [hsame, set_procs_self, hdepth]
      · rw [set_procs_of_ne hsame]
        by_contra hother
        exact hsame (hstate.exclusive other pid hother hinside)
    exact ⟨hprocs, fun _ => hzero,
      fun left _ hleft => absurd (hzero left) hleft⟩

theorem invariant_step (state : State) (event : Event Job)
    (hstate : Invariant state) (hpatient : Patient program limit state event) :
    Invariant (step program limit state event) := by
  cases event with
  | begin pid job =>
    rw [step]
    split
    swap
    · exact hstate
    next hidle =>
    have hok := hstate.ok pid
    have hflat := hok.flat_todo
    rw [hidle.1, flat, Bool.not_eq_true'] at hflat
    refine hstate.set_of_depth_eq
      ⟨hok.depth_le, ?_, hok.waiting, hok.asking⟩ rfl
    rw [hflat]
    exact hpatient
  | step pid =>
    obtain ⟨hok, hcases⟩ := advance_cases (hstate.ok pid) hpatient
    exact invariant_advance hstate _ hok hcases
  | answer pid =>
    have hok := hstate.ok pid
    exact hstate.set_of_depth_eq ⟨hok.depth_le, hok.flat_todo, hok.waiting,
      fun hasking => absurd hasking Bool.false_ne_true⟩ rfl
  | tick =>
    refine ⟨fun pid => ?_, hstate.free, hstate.exclusive⟩
    have hok := hstate.ok pid
    exact ⟨hok.depth_le, hok.flat_todo, hok.waiting, hok.asking⟩

end

/-- In a run of such jobs and waits the lock does what it is for. -/
theorem safe_of_patient (server : ℕ) {events front : List (Event Job)}
    (hevents : Along (step program limit) (Patient program limit) start events)
    (hfront : front <+: events) :
    Safe server (front.foldl (step program limit) start) := by
  obtain ⟨back, rfl⟩ := hfront
  exact safe_of_invariant (invariant_of_along invariant_step invariant_start
    (along_append.mp hevents).1) server

end Tomato64.LockFile
