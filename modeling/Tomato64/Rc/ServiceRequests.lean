import Tomato64.Core.Run
import Tomato64.Core.Split
import Tomato64.Core.Text

/-!
# Requests for services

A process that wants a service started or stopped stores the request in the
NVRAM variable `action_service` and sends a signal to init, which executes what
it finds there and clears the variable.  `do_service` in rc and `exec_service`
in httpd both wait for an empty variable before and for a changed one after
that, each for a limited time.  The variable is tested and set in two steps,
and no lock is held in between.
-/

namespace Tomato64.ServiceRequests

open List Run Split Text

/-- An entry `service-action[-modifier]`. -/
structure Action where
  service : Bytes
  act : Bytes
  modifier : Option Bytes
  deriving DecidableEq, Repr

def parseItem (item : Bytes) : Option Action :=
  (splitFirst 45 item).map fun (service, act) =>
    match splitFirst 45 act with
    | none => ⟨service, act, none⟩
    | some (act, modifier) => ⟨service, act, some modifier⟩

/-- The entries up to the first one without an action. -/
def itemActions : List Bytes → List Action
  | [] => []
  | item :: items =>
    match parseItem item with
    | none => []
    | some action => action :: itemActions items

/-- What `exec_service` executes after it has copied the variable into a buffer
of 128 bytes. -/
def execActions (text : Bytes) : List Action :=
  itemActions ((text.take 127).splitOn 44)

/-- A request of `do_service` or one of `exec_service` in httpd. -/
inductive Request
  | service (name action : Bytes) (user : Bool)
  | web (action : Bytes)
  deriving DecidableEq, Repr

namespace Request

def text : Request → Bytes
  | .service name action user =>
    name ++ 45 :: action ++ if user then bytes "-c" else []
  | .web action => action

/-- What is stored in the variable; `do_service` has a buffer of 64 bytes. -/
def stored : Request → Bytes
  | .service name action user => (text (.service name action user)).take 63
  | .web action => action

/-- The actions that are asked for. -/
def actions (request : Request) : List Action :=
  (request.text.splitOn 44).filterMap parseItem

/-- How many tests may fail before the wait for an empty variable is given up.
The `service` command waits without a limit. -/
def patience : Request → Option ℕ
  | .service _ _ true => none
  | .service _ _ false => some 200
  | .web _ => some 10

/-- The same for the wait for a changed variable. -/
def afterPatience : Request → Option ℕ
  | .service _ _ true => none
  | .service _ _ false => some 200
  | .web _ => some 3

/-- Only `do_service` looks at `debug_rc_svc`. -/
def isService : Request → Bool
  | .service _ _ _ => true
  | .web _ => false

end Request

/-! ## Processes -/

/-- A call of init's `exec_service`. -/
inductive Exec
  | entered
  | running (left : List Action)
  deriving DecidableEq, Repr

/-- How far a requester has got. -/
inductive Phase
  | idle
  | before (request : Request) (left : Option ℕ)
  | granted (request : Request)
  | stored (request : Request)
  | executing (request : Request) (exec : Exec)
  | after (request : Request) (left : Option ℕ)
  | returned
  deriving DecidableEq, Repr

/-- The variables that the processes share, the signal that waits for init,
what each process is doing, and the actions that init has executed.  `stored`
records the requests in the order in which they were put in the variable. -/
structure State where
  actionService : Bytes
  debugRcSvc : Bool
  pending : Bool
  init : Option Exec
  phases : ℕ → Phase
  executed : List Action
  stored : List (ℕ × Request)

/-- Each requester is a number and makes one request. -/
inductive Event
  | request (who : ℕ) (request : Request)
  | test (who : ℕ)
  | store (who : ℕ)
  | signal (who : ℕ)
  | own (who : ℕ)
  | check (who : ℕ)
  | take
  | work
  | debug
  deriving DecidableEq, Repr

def start : State where
  actionService := []
  debugRcSvc := false
  pending := false
  init := none
  phases := fun _ => .idle
  executed := []
  stored := []

def State.setPhase (state : State) (who : ℕ) (phase : Phase) : State :=
  { state with phases := Function.update state.phases who phase }

/-- A step of `exec_service`: what is left of the call, the variable, and the
action executed. -/
def execStep (text : Bytes) : Exec → Option Exec × Bytes × List Action
  | .entered => (some (.running (execActions text)), text, [])
  | .running (action :: left) => (some (.running left), text, [action])
  | .running [] => (none, [], [])

def step (state : State) : Event → State
  | .request who request =>
    match state.phases who with
    | .idle => state.setPhase who (.before request request.patience)
    | _ => state
  | .test who =>
    match state.phases who with
    | .before request left =>
      if state.actionService = [] ∨ left = some 0 then
        state.setPhase who (.granted request)
      else state.setPhase who (.before request (left.map (· - 1)))
    | _ => state
  | .store who =>
    match state.phases who with
    | .granted request =>
      { state.setPhase who (.stored request) with
        actionService := request.stored
        stored := state.stored ++ [(who, request)] }
    | _ => state
  | .signal who =>
    match state.phases who with
    | .stored request =>
      if request.isService && state.debugRcSvc then
        { state.setPhase who (.executing request .entered) with
          debugRcSvc := false }
      else
        { state.setPhase who (.after request request.afterPatience) with
          pending := true }
    | _ => state
  | .own who =>
    match state.phases who with
    | .executing request exec =>
      let (next, text, _) := execStep state.actionService exec
      { state.setPhase who
          (match next with
            | some next => .executing request next
            | none => .after request request.afterPatience) with
        actionService := text }
    | _ => state
  | .check who =>
    match state.phases who with
    | .after request left =>
      if state.actionService ≠ request.stored ∨ left = some 0 then
        state.setPhase who .returned
      else state.setPhase who (.after request (left.map (· - 1)))
    | _ => state
  | .take =>
    if state.pending && state.init.isNone then
      { state with pending := false, init := some .entered }
    else state
  | .work =>
    match state.init with
    | none => state
    | some exec =>
      let (next, text, done) := execStep state.actionService exec
      { state with
        init := next
        actionService := text
        executed := state.executed ++ done }
  | .debug => { state with debugRcSvc := true }

/-! ## Exactly once -/

/-- The actions of the requests, one after the other. -/
def requested (stored : List (ℕ × Request)) : List Action :=
  stored.flatMap fun entry => entry.2.actions

/-- Init has executed the actions in the order of the requests, those of every
request whose requester has returned are among them, and what is missing is on
its way. -/
structure Served (state : State) : Prop where
  inOrder : state.executed <+: requested state.stored
  complete : ∀ front who request,
    front ++ [(who, request)] <+: state.stored →
      state.phases who = .returned →
        requested (front ++ [(who, request)]) <+: state.executed
  underWay : state.executed ≠ requested state.stored →
    state.pending = true ∨ state.init.isSome = true ∨
      ∃ who request, state.phases who = .stored request

/-- A request that fits in the buffers and consists of entries with an
action. -/
structure Request.WellFormed (request : Request) : Prop where
  stored_eq : request.stored = request.text
  text_ne : request.text ≠ []
  length_le : request.text.length ≤ 127
  items : ∀ item ∈ request.text.splitOn 44, (45 : Byte) ∈ item

instance (request : Request) : Decidable request.WellFormed :=
  decidable_of_iff (request.stored = request.text ∧ request.text ≠ [] ∧
      request.text.length ≤ 127 ∧
      ∀ item ∈ request.text.splitOn 44, (45 : Byte) ∈ item)
    ⟨fun ⟨hstored, htext, hlength, hitems⟩ =>
        ⟨hstored, htext, hlength, hitems⟩,
      fun hformed => ⟨hformed.stored_eq, hformed.text_ne, hformed.length_le,
        hformed.items⟩⟩

/-- A request is stored only while the variable is still empty, the debug
variable is not set when `do_service` signals init, and no wait for the
execution runs out of time. -/
def Fits (state : State) : Event → Prop
  | .store who => ∀ request, state.phases who = .granted request →
      state.actionService = [] ∧ request.WellFormed
  | .signal who => ∀ request, state.phases who = .stored request →
      request.isService = true → state.debugRcSvc = false
  | .check who => ∀ request left, state.phases who = .after request left →
      state.actionService = request.stored → left ≠ some 0
  | _ => True

/-! ## The texts of well-formed requests -/

theorem parseItem_isSome {item : Bytes} (hitem : (45 : Byte) ∈ item) :
    ∃ action, parseItem item = some action := by
  cases hcut : splitFirst 45 item with
  | none => exact absurd hitem (splitFirst_eq_none_iff.mp hcut)
  | some cut => exact ⟨_, by rw [parseItem, hcut]; rfl⟩

theorem itemActions_eq_filterMap {items : List Bytes}
    (hitems : ∀ item ∈ items, (45 : Byte) ∈ item) :
    itemActions items = items.filterMap parseItem := by
  induction items with
  | nil => rfl
  | cons item items ih =>
    rw [forall_mem_cons] at hitems
    obtain ⟨action, haction⟩ := parseItem_isSome hitems.1
    rw [itemActions, filterMap_cons, haction]
    exact congrArg _ (ih hitems.2)

theorem Request.WellFormed.execActions_text {request : Request}
    (hrequest : request.WellFormed) :
    execActions request.text = request.actions := by
  rw [execActions, take_of_length_le hrequest.length_le,
    itemActions_eq_filterMap hrequest.items]
  rfl

theorem requested_append (front back : List (ℕ × Request)) :
    requested (front ++ back) = requested front ++ requested back :=
  flatMap_append

theorem requested_singleton (who : ℕ) (request : Request) :
    requested [(who, request)] = request.actions :=
  append_nil _

/-! ## One request at a time -/

/-- The requester has not stored its request yet. -/
def Early : Phase → Prop
  | .idle | .before _ _ | .granted _ => True
  | _ => False

/-- The requester has signalled. -/
def Settled : Phase → Prop
  | .after _ _ | .returned => True
  | _ => False

/-- No request is under way. -/
structure Quiet (state : State) : Prop where
  empty : state.actionService = []
  unsignalled : state.pending = false
  idle : state.init = none
  executed : state.executed = requested state.stored
  settled : ∀ entry ∈ state.stored, Settled (state.phases entry.1)
  signalling : ∀ who request, state.phases who ≠ .stored request

/-- How far the request of `who` has got, and the actions that init has still
to execute for it. -/
inductive Place (state : State) (who : ℕ) (request : Request) :
    List Action → Prop
  | unsignalled (hphase : state.phases who = .stored request)
      (hpending : state.pending = false) (hinit : state.init = none) :
      Place state who request request.actions
  | signalled (left : Option ℕ)
      (hphase : state.phases who = .after request left)
      (hpending : state.pending = true) (hinit : state.init = none) :
      Place state who request request.actions
  | entered (left : Option ℕ) (hphase : state.phases who = .after request left)
      (hpending : state.pending = false) (hinit : state.init = some .entered) :
      Place state who request request.actions
  | running (left : Option ℕ) (rest : List Action)
      (hphase : state.phases who = .after request left)
      (hpending : state.pending = false)
      (hinit : state.init = some (.running rest)) :
      Place state who request rest

/-- One request is under way behind those in `front`, the variable holds it,
and some of its actions have been executed. -/
structure Busy (state : State) (front : List (ℕ × Request)) (who : ℕ)
    (request : Request) (finished rest : List Action) : Prop where
  stored : state.stored = front ++ [(who, request)]
  wellFormed : request.WellFormed
  text : state.actionService = request.text
  settled : ∀ entry ∈ front,
    entry.1 ≠ who ∧ Settled (state.phases entry.1)
  signalling : ∀ other asked,
    state.phases other = .stored asked → other = who
  executed : state.executed = requested front ++ finished
  actions : finished ++ rest = request.actions
  place : Place state who request rest

structure Invariant (state : State) : Prop where
  own : ∀ who request exec, state.phases who ≠ .executing request exec
  progress : Quiet state ∨ ∃ front who request finished rest,
    Busy state front who request finished rest

theorem invariant_start : Invariant start := by
  refine ⟨fun _ _ _ hphase => ?_, Or.inl ⟨rfl, rfl, rfl, rfl, ?_, ?_⟩⟩
  · cases hphase
  · exact fun _ hentry => absurd hentry not_mem_nil
  · exact fun _ _ hphase => Phase.noConfusion hphase

section
variable {state : State} {front : List (ℕ × Request)} {who other : ℕ}
variable {request : Request} {finished rest : List Action} {phase : Phase}

theorem Place.phase_cases (hplace : Place state who request rest) :
    state.phases who = .stored request ∨
      ∃ left, state.phases who = .after request left := by
  cases hplace <;> grind

theorem Busy.executed_prefix
    (hbusy : Busy state front who request finished rest) :
    state.executed <+: requested state.stored := by
  refine ⟨rest, ?_⟩
  rw [hbusy.executed, hbusy.stored, requested_append, requested_singleton,
    append_assoc, hbusy.actions]

theorem Busy.underWay (hbusy : Busy state front who request finished rest) :
    state.pending = true ∨ state.init.isSome = true ∨
      ∃ who request, state.phases who = .stored request := by
  cases hbusy.place <;> grind

theorem served_of_invariant (hstate : Invariant state) : Served state := by
  have hmono {left right : List (ℕ × Request)} (hleads : left <+: right) :
      requested left <+: requested right := by
    obtain ⟨back, rfl⟩ := hleads
    rw [requested_append]
    exact prefix_append _ _
  rcases hstate.progress with hquiet | ⟨front, who, request, _, _, hbusy⟩
  · refine ⟨?_, ?_, fun hother => absurd hquiet.executed hother⟩
    · rw [hquiet.executed]
    · intro before other asked hleads _
      rw [hquiet.executed]
      exact hmono hleads
  refine ⟨hbusy.executed_prefix, ?_, fun _ => hbusy.underWay⟩
  intro before other asked hleads hreturned
  rw [hbusy.stored, prefix_concat_iff] at hleads
  rcases hleads with hwhole | hleads
  · -- the request under way has not returned
    have hlast := (append_inj' hwhole rfl).2
    have hphase := hbusy.place.phase_cases
    grind
  · rw [hbusy.executed]
    exact (hmono hleads).trans (prefix_append _ _)

/-! ## Steps of the requesters -/

/-- A change of phase that does not touch the variable. -/
def Calm (old new : Phase) : Prop :=
  Early old ∧ Early new ∨ Settled old ∧ Settled new

theorem not_settled_of_early {old : Phase} (hearly : Early old) :
    ¬ Settled old := by
  cases old <;> first | exact id | exact hearly.elim

theorem phases_setPhase (third : ℕ) :
    (state.setPhase who phase).phases third =
      if third = who then phase else state.phases third :=
  Function.update_apply state.phases who phase third

/-- The place depends on what init does and on the phase of the requester, up
to the time that this one has left. -/
theorem Place.congr {next : State} (hplace : Place state who request rest)
    (hsame : next.pending = state.pending ∧ next.init = state.init)
    (hstored : state.phases who = .stored request →
      next.phases who = .stored request)
    (hafter : ∀ left, state.phases who = .after request left →
      ∃ left, next.phases who = .after request left) :
    Place next who request rest := by
  cases hplace with
  | unsignalled hphase hpending hinit =>
    exact .unsignalled (hstored hphase) (hsame.1.trans hpending)
      (hsame.2.trans hinit)
  | signalled left hphase hpending hinit =>
    obtain ⟨left, hphase⟩ := hafter left hphase
    exact .signalled left hphase (hsame.1.trans hpending) (hsame.2.trans hinit)
  | entered left hphase hpending hinit =>
    obtain ⟨left, hphase⟩ := hafter left hphase
    exact .entered left hphase (hsame.1.trans hpending) (hsame.2.trans hinit)
  | running left rest hphase hpending hinit =>
    obtain ⟨left, hphase⟩ := hafter left hphase
    exact .running left rest hphase (hsame.1.trans hpending) (hsame.2.trans hinit)

variable (hstate : Invariant state)
include hstate

/-- A requester that does not touch the variable; that of the request under way
may only go on waiting. -/
theorem Invariant.setPhase (hcalm : Calm (state.phases other) phase)
    (howner : ∀ front request finished rest,
      Busy state front other request finished rest →
        ∃ left, phase = .after request left) :
    Invariant (state.setPhase other phase) := by
  have hsettled (third : ℕ) (hold : Settled (state.phases third)) :
      Settled ((state.setPhase other phase).phases third) := by
    grind [phases_setPhase, Calm, not_settled_of_early]
  have hstored (third : ℕ) (asked : Request)
      (hphase : (state.setPhase other phase).phases third = .stored asked) :
      state.phases third = .stored asked := by
    grind [phases_setPhase, Calm, Early, Settled]
  have hown := hstate.own
  refine ⟨by grind [phases_setPhase, Calm, Early, Settled], ?_⟩
  rcases hstate.progress with
    hquiet | ⟨front, who, request, finished, rest, hbusy⟩
  · exact Or.inl { hquiet with
      settled := fun entry hentry => hsettled _ (hquiet.settled entry hentry)
      signalling := fun third asked hphase =>
        hquiet.signalling third asked (hstored third asked hphase) }
  · refine Or.inr ⟨front, who, request, finished, rest, { hbusy with
      settled := fun entry hentry =>
        (hbusy.settled entry hentry).imp_right (hsettled _)
      signalling := fun third asked hphase =>
        hbusy.signalling third asked (hstored third asked hphase)
      place := hbusy.place.congr ⟨rfl, rfl⟩ ?_ ?_ }⟩
    · grind [phases_setPhase, Calm, Early, Settled]
    · grind [phases_setPhase]

/-- Requesters that have not stored anything are free to move. -/
theorem Invariant.setPhase_early
    (hold : Early (state.phases other)) (hnew : Early phase) :
    Invariant (state.setPhase other phase) := by
  refine hstate.setPhase (Or.inl ⟨hold, hnew⟩) fun _ _ _ _ hbusy => ?_
  have hphase := hbusy.place.phase_cases
  grind [Early]

theorem invariant_test (who : ℕ) : Invariant (step state (.test who)) := by
  rw [step]
  split
  · next request left hphase =>
    have hearly : Early (state.phases who) := by
      rw [hphase]
      trivial
    split
    · exact hstate.setPhase_early hearly trivial
    · exact hstate.setPhase_early hearly trivial
  · exact hstate

/-- A request stored in an empty variable is the only one under way. -/
theorem invariant_store (who : ℕ) (hfits : Fits state (.store who)) :
    Invariant (step state (.store who)) := by
  rw [step]
  split
  swap
  · exact hstate
  next request hphase =>
  obtain ⟨hempty, hrequest⟩ := hfits request hphase
  have hown := hstate.own
  rcases hstate.progress with hquiet | ⟨front, owner, asked, _, _, hbusy⟩
  swap
  · exact absurd (hbusy.text.symm.trans hempty) hbusy.wellFormed.text_ne
  have hsettled := hquiet.settled
  have hsignalling := hquiet.signalling
  refine ⟨?_, Or.inr ⟨state.stored, who, request, [], request.actions,
    rfl, hrequest, hrequest.stored_eq, ?_, ?_, ?_, rfl,
    .unsignalled ?_ hquiet.unsignalled hquiet.idle⟩⟩
  · grind [phases_setPhase]
  · grind [phases_setPhase, Settled]
  · grind [phases_setPhase]
  · exact hquiet.executed.trans (append_nil _).symm
  · grind [phases_setPhase]

/-- The signal for the request under way. -/
theorem invariant_signal (who : ℕ) (hfits : Fits state (.signal who)) :
    Invariant (step state (.signal who)) := by
  rw [step]
  split
  swap
  · exact hstate
  next request hphase =>
  have hsignals : ¬ (request.isService && state.debugRcSvc) = true := by
    rw [Bool.and_eq_true, not_and, Bool.not_eq_true]
    exact hfits request hphase
  rw [if_neg hsignals]
  have hown := hstate.own
  rcases hstate.progress with
    hquiet | ⟨front, owner, asked, finished, rest, hbusy⟩
  · exact absurd hphase (hquiet.signalling who request)
  obtain rfl := hbusy.signalling who request hphase
  have hsettled := hbusy.settled
  have hsignalling := hbusy.signalling
  cases hbusy.place with
  | unsignalled howner _ hinit =>
    obtain rfl : request = asked := by grind
    refine ⟨?_, Or.inr ⟨front, who, request, finished, request.actions,
      { hbusy with
        settled := ?_
        signalling := ?_
        place := .signalled request.afterPatience ?_ rfl hinit }⟩⟩
    · grind [phases_setPhase]
    · grind [phases_setPhase]
    · grind [phases_setPhase]
    · grind [phases_setPhase]
  | signalled _ howner _ _ => grind
  | entered _ howner _ _ => grind
  | running _ _ howner _ _ => grind

/-- The requester of the request under way goes on waiting, the others may
return. -/
theorem invariant_check (who : ℕ) (hfits : Fits state (.check who)) :
    Invariant (step state (.check who)) := by
  rw [step]
  split
  swap
  · exact hstate
  next request left hphase =>
  have howner : ∀ front asked finished rest,
      Busy state front who asked finished rest →
      state.actionService = request.stored ∧ asked = request := by
    intro front asked finished rest hbusy
    have hcases := hbusy.place.phase_cases
    have htext := hbusy.text
    have hstored := hbusy.wellFormed.stored_eq
    grind
  have hsettled : Settled (state.phases who) := by
    rw [hphase]
    trivial
  split
  · next hover =>
    refine hstate.setPhase (Or.inr ⟨hsettled, trivial⟩) ?_
    intro front asked finished rest hbusy
    have htext := (howner front asked finished rest hbusy).1
    exact absurd (hover.resolve_left (not_not.mpr htext))
      (hfits request left hphase htext)
  · refine hstate.setPhase (Or.inr ⟨hsettled, trivial⟩) ?_
    intro front asked finished rest hbusy
    exact ⟨_, by rw [(howner front asked finished rest hbusy).2]⟩

/-! ## Steps of init -/

theorem invariant_take : Invariant (step state .take) := by
  rw [step]
  split
  swap
  · exact hstate
  next htake =>
  rcases hstate.progress with
    hquiet | ⟨front, who, request, finished, rest, hbusy⟩
  · have hpending := hquiet.unsignalled
    grind
  refine ⟨hstate.own, Or.inr ⟨front, who, request, finished, rest,
    { hbusy with place := ?_ }⟩⟩
  cases hbusy.place with
  | signalled left hphase _ _ => exact .entered left hphase rfl rfl
  | unsignalled _ hpending _ => grind
  | entered _ _ hpending _ => grind
  | running _ _ _ hpending _ => grind

/-- Init executes the actions of the request under way, and clears the
variable when none is left. -/
theorem invariant_work : Invariant (step state .work) := by
  rw [step]
  split
  · exact hstate
  next exec hexec =>
  rcases hstate.progress with
    hquiet | ⟨front, who, request, finished, rest, hbusy⟩
  · have hidle := hquiet.idle
    grind
  have hexecuted := hbusy.executed
  have hactions := hbusy.actions
  cases hbusy.place with
  | unsignalled _ _ hinit => grind
  | signalled _ _ _ hinit => grind
  | entered left hphase hpending hinit =>
    obtain rfl : exec = .entered := by grind
    refine ⟨hstate.own, Or.inr ⟨front, who, request, finished,
      request.actions, { hbusy with
        executed := ?_
        place := .running left _ hphase hpending ?_ }⟩⟩
    · simp only [execStep, append_nil, hexecuted]
    · simp only [execStep, hbusy.text]
      rw [hbusy.wellFormed.execActions_text]
  | running left _ hphase hpending hinit =>
    obtain rfl : exec = .running rest := by grind
    cases rest with
    | nil =>
      have hsettled := hbusy.settled
      have hsignalling := hbusy.signalling
      have hstored := hbusy.stored
      refine ⟨hstate.own, Or.inl ⟨rfl, hpending, rfl, ?_, ?_, ?_⟩⟩
      · simp only [execStep, hexecuted, hstored, requested_append,
          requested_singleton, ← hactions, append_nil]
      · grind [Settled]
      · grind
    | cons action rest =>
      refine ⟨hstate.own, Or.inr ⟨front, who, request,
        finished ++ [action], rest, { hbusy with
          executed := ?_
          actions := ?_
          place := .running left rest hphase hpending rfl }⟩⟩
      · simp only [execStep, hexecuted, append_assoc]
      · rw [append_assoc, singleton_append, hactions]

theorem invariant_debug : Invariant (step state .debug) := by
  refine ⟨hstate.own, ?_⟩
  rcases hstate.progress with
    hquiet | ⟨front, who, request, finished, rest, hbusy⟩
  · exact Or.inl { hquiet with }
  · exact Or.inr ⟨front, who, request, finished, rest, { hbusy with
      place := hbusy.place.congr ⟨rfl, rfl⟩ id fun left hleft =>
        ⟨left, hleft⟩ }⟩

omit hstate

theorem invariant_step (state : State) (event : Event)
    (hstate : Invariant state) (hfits : Fits state event) :
    Invariant (step state event) := by
  cases event with
  | request who request =>
    rw [step]
    split
    · next hphase =>
      exact hstate.setPhase_early (by rw [hphase]; trivial) trivial
    · exact hstate
  | test who => exact invariant_test hstate who
  | store who => exact invariant_store hstate who hfits
  | signal who => exact invariant_signal hstate who hfits
  | own who =>
    rw [step]
    split
    · next request exec hphase =>
      exact absurd hphase (hstate.own who request exec)
    · exact hstate
  | check who => exact invariant_check hstate who hfits
  | take => exact invariant_take hstate
  | work => exact invariant_work hstate
  | debug => exact invariant_debug hstate

end

/-- In a run in which requests are stored only in an empty variable, init
executes the actions of every request exactly once. -/
theorem served_of_fits (events : List Event)
    (hevents : Along step Fits start events) (front : List Event)
    (hfront : front <+: events) : Served (front.foldl step start) := by
  obtain ⟨back, rfl⟩ := hfront
  exact served_of_invariant (invariant_of_along invariant_step
    invariant_start (along_append.mp hevents).1)

def wanRestart : Request := .web (bytes "wan-restart")

def firewallRestart : Request :=
  .service (bytes "firewall") (bytes "restart") false

/-- A second request comes while init serves the first one, and waits for the
empty variable. -/
def waitingRun : List Event :=
  [.request 0 wanRestart, .request 1 firewallRestart, .test 0, .store 0,
    .test 1, .signal 0, .take, .work, .check 0, .work, .test 1, .work, .test 1,
    .check 0, .store 1, .signal 1, .take, .work, .work, .work, .check 1]

theorem served_of_fits_waiting :
    Along step Fits start waitingRun ∧
      Served (waitingRun.foldl step start) := by
  have hfits : Along step Fits start waitingRun := by
    refine ⟨trivial, trivial, trivial, ?_, trivial, ?_, trivial, trivial, ?_,
      trivial, trivial, trivial, trivial, ?_, ?_, ?_, trivial, trivial, trivial,
      trivial, ?_, trivial⟩
    · rintro request ⟨⟩
      exact ⟨rfl, by decide⟩
    · exact fun _ _ _ => rfl
    · rintro request left ⟨⟩ _
      decide
    · rintro request left ⟨⟩ htext
      exact absurd htext (by decide)
    · rintro request ⟨⟩
      exact ⟨rfl, by decide⟩
    · exact fun _ _ _ => rfl
    · rintro request left ⟨⟩ htext
      exact absurd htext (by decide)
  exact ⟨hfits, served_of_fits waitingRun hfits waitingRun (prefix_refl _)⟩

/-- Both requesters find the variable empty before either of them stores its
request. -/
def lostRun : List Event :=
  [.request 0 wanRestart, .request 1 firewallRestart, .test 0, .test 1,
    .store 0, .store 1, .signal 0, .signal 1, .check 0, .take, .work, .work,
    .work, .check 1]

theorem not_served_lost :
    (lostRun.foldl step start).executed =
        [⟨bytes "firewall", bytes "restart", none⟩] ∧
      (lostRun.foldl step start).phases 0 = .returned ∧
      ¬ Served (lostRun.foldl step start) := by
  have hexecuted : (lostRun.foldl step start).executed =
      [⟨bytes "firewall", bytes "restart", none⟩] := by decide
  have hreturned : (lostRun.foldl step start).phases 0 = .returned := by decide
  refine ⟨hexecuted, hreturned, fun hserved => ?_⟩
  have hcomplete := hserved.complete [] 0 wanRestart (by decide) hreturned
  rw [hexecuted] at hcomplete
  exact absurd hcomplete (by decide)

end Tomato64.ServiceRequests
