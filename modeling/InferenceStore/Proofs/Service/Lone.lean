import InferenceStore.Proofs.Queue.Statistics
import InferenceStore.Proofs.Service.Driver
import InferenceStore.Proofs.Service.Submissions

/-
A request with no other beside it. As long as nothing is pushed, it waits, is with a worker, or has
been completed with the result of its own run, which is then the only one that the books enter.
Whether a worker ever takes it depends on the policy of its model and on its samples alone: a group
that is to have more samples, and waits for them for ever, is never run.
-/

namespace InferenceStore

/-- Whether a request of so many samples is run sooner or later if no other one comes. -/
def BatchPolicy.servesOne (policy : BatchPolicy) (samples : Nat) : Bool :=
  !policy.isEnabled || samples == 0 || decide (policy.batchSize ≤ samples) ||
    policy.minBatchSize == 0 || decide (policy.minBatchSize ≤ samples) ||
      policy.minBatchTimeout != 0

namespace Request

def isServedAlone (request : Request) : Bool := request.policy.servesOne request.batchSize

def ownResult (request : Request) : Outcome (List Tensor) :=
  request.target.invoke request.inputs request.outputCount

end Request

namespace Selection

variable {request : Request} {now : Nat}

theorem isReady_alone (request : Request) (now : Nat) :
    isReady request now (claimOf request []) =
      (isAlone request || request.policy.minBatchSize == 0 ||
        decide (request.policy.minBatchSize ≤ request.batchSize) || hasWaitedOut request now) := by
  unfold isReady claimOf claim
  cases isAlone request <;> simp

theorem isServedAlone_of_isReady
    (ready : isReady request now (claimOf request []) = true) : request.isServedAlone = true := by
  rw [isReady_alone] at ready
  unfold Request.isServedAlone BatchPolicy.servesOne
  unfold isAlone hasWaitedOut patience? at ready
  by_cases patient : request.policy.minBatchTimeout = 0
  · simp only [patient] at ready ⊢
    simpa using ready
  · simp [patient]

theorem isReady_of_isServedAlone (served : request.isServedAlone = true)
    (late : request.enqueuedAt + request.policy.minBatchTimeout ≤ now) :
    isReady request now (claimOf request []) = true := by
  rw [isReady_alone]
  unfold Request.isServedAlone BatchPolicy.servesOne at served
  unfold isAlone hasWaitedOut patience?
  by_cases patient : request.policy.minBatchTimeout = 0
  · simp only [patient] at served ⊢
    simpa using served
  · simp [patient, late]

theorem group_lone (patient : request.deadline = none) (now : Nat) :
    (ofQueue [request] now).group =
      if isReady request now (claimOf request []) then [request] else [] := by
  have live : request.isExpired now = false := by simp [Request.isExpired, patient]
  unfold ofQueue
  simp only [List.filter_cons, live, Bool.not_false, if_true, List.filter_nil, List.zipIdx_cons,
    List.zipIdx_nil, choose]
  split <;> simp [leftBy, choose]

end Selection

namespace RunQueue

variable {queue : RunQueue} {request : Request} {event : Event} {now : Nat}

theorem pushed_of_isWork (isWork : event.isWork = true) : event.pushed = [] := by
  cases event <;> first | rfl | cases isWork

theorem cases_of_lone (only : queue.contents = [request]) :
    queue.pending = [request] ∧ queue.held = [] ∨ queue.pending = [] ∧ queue.held = [request] := by
  rcases List.append_eq_singleton_iff.mp only with both | both
  · exact Or.inr both
  · exact Or.inl both

theorem empty_after (empty : queue.contents = []) (isWork : event.isWork = true)
    (permitted : queue.permits event = true) (now : Nat) :
    (queue.after now event).contents = [] ∧ queue.endings now event = [] := by
  have balance := queue.conserves now permitted
  rw [pushed_of_isWork isWork, List.append_nil] at balance
  have nothing := (balance.trans (.of_eq empty)).eq_nil
  obtain ⟨contents, endings⟩ := List.append_eq_nil_iff.mp nothing
  exact ⟨contents, List.map_eq_nil_iff.mp endings⟩

/-- Whoever ends is the request itself, and then a worker has run it. -/
theorem endings_of_lone (patient : request.deadline = none) (isWork : event.isWork = true)
    (ends : (queue.endings now event).map Prod.fst = [request]) :
    queue.endings now event = [(request, .returned request.ownResult)] := by
  cases event with
  | look id =>
      have late : request ∈ (queue.selection now).expired := by
        have member : request ∈ (queue.endings now (.look id)).map Prod.fst := by
          rw [ends]
          exact List.mem_singleton.mpr rfl
        simpa [endings] using member
      have expired := (Selection.mem_expired.mp late).2
      rw [Request.isExpired, patient] at expired
      cases expired
  | returnCall id =>
      simp only [endings] at ends ⊢
      generalize queue.workers[id.worker]?.elim [] Worker.group = group at ends ⊢
      have alone : group = [request] := by
        rw [← shares_requests group, ← ends, List.map_map]
        rfl
      rw [alone]
      rfl
  | wake id => cases ends
  | advance moment => cases ends
  | _ => cases isWork

/-- A queue with one request has it behind a step too, or a worker has run it. -/
theorem lone_after (only : queue.contents = [request]) (patient : request.deadline = none)
    (isWork : event.isWork = true) (permitted : queue.permits event = true) (now : Nat) :
    (queue.after now event).contents = [request] ∧ queue.endings now event = [] ∨
      (queue.after now event).contents = [] ∧
        queue.endings now event = [(request, .returned request.ownResult)] := by
  have balance := queue.conserves now permitted
  rw [pushed_of_isWork isWork, List.append_nil] at balance
  have whole := List.perm_singleton.mp (balance.trans (.of_eq only))
  rcases List.append_eq_singleton_iff.mp whole with ⟨contents, ends⟩ | ⟨contents, ends⟩
  · exact Or.inr ⟨contents, endings_of_lone patient isWork ends⟩
  · exact Or.inl ⟨contents, List.map_eq_nil_iff.mp ends⟩

theorem isServedAlone_of_taken (only : queue.contents = [request])
    (patient : request.deadline = none) (permitted : queue.permits event = true)
    (before : request ∈ queue.held → request.isServedAlone = true) (now : Nat)
    (taken : request ∈ (queue.after now event).held ++ Ending.run (queue.endings now event)) :
    request.isServedAlone = true := by
  rcases List.mem_append.mp ((queue.conserves_groups now permitted).subset taken) with
    already | selected
  · exact before already
  · cases event with
    | look id =>
        rcases cases_of_lone only with ⟨pending, _⟩ | ⟨_, held⟩
        · simp only [RunQueue.selected, selection, pending, Selection.group_lone patient]
            at selected
          split at selected
          · rename_i ready
            exact Selection.isServedAlone_of_isReady ready
          · cases selected
        · exact before (held ▸ List.mem_singleton.mpr rfl)
    | _ => cases selected

end RunQueue

namespace Dispatcher

/-- No request waits or is with a worker at queues of these places. -/
def EmptyAt (dispatcher : Dispatcher) (places : Nat → Prop) : Prop :=
  ∀ place queue, dispatcher.queues[place]? = some queue → places place → queue.contents = []

def Idle (dispatcher : Dispatcher) : Prop := ∀ queue ∈ dispatcher.queues, queue.contents = []

/-- One request waits or is with a worker, at this queue, and no other one anywhere. -/
structure Attends (dispatcher : Dispatcher) (place : Nat) (request : Request) : Prop where
  here : ∃ queue, dispatcher.queues[place]? = some queue ∧ queue.contents = [request] ∧
    (request ∈ queue.held → request.isServedAlone = true)
  elsewhere : dispatcher.EmptyAt (· ≠ place)

variable {dispatcher : Dispatcher} {event : Event} {place : Nat} {places : Nat → Prop}
  {request : Request}

theorem idle_iff : dispatcher.Idle ↔ dispatcher.EmptyAt fun _ => True := by
  constructor
  · exact fun idle place queue found _ => idle queue (List.mem_of_getElem? found)
  · intro empty queue member
    obtain ⟨place, found⟩ := List.getElem?_of_mem member
    exact empty place queue found trivial

theorem results_after (isWork : event.isWork = true)
    (permitted : dispatcher.permits event = true) :
    (dispatcher.after event).results =
      settle dispatcher.results (Moment.endings ⟨dispatcher, event⟩) := by
  cases placed : event.place? with
  | some place =>
      obtain ⟨queue, found, allowed⟩ := permits_place placed permitted
      rw [Moment.endings_eq placed found]
      exact (Change.of_place placed found allowed).results
  | none =>
      rw [Moment.endings_of_no_place placed]
      cases event with
      | openQueue device threads => cases isWork
      | reset account => cases isWork
      | advance moment => rfl
      | _ => cases placed

theorem queue_before {queue : RunQueue} (isWork : event.isWork = true)
    (permitted : dispatcher.permits event = true)
    (found : (dispatcher.after event).queues[place]? = some queue) :
    ∃ before, dispatcher.queues[place]? = some before ∧
      queue = if event.place? = some place then before.after dispatcher.now event else before := by
  cases foundBefore : dispatcher.queues[place]? with
  | some before =>
      rw [queue_after permitted foundBefore, Option.some.injEq] at found
      exact ⟨before, rfl, found.symm⟩
  | none =>
      obtain ⟨device, threads, rfl, _⟩ := opened_of_absent permitted foundBefore found
      cases isWork

theorem queue_after_here {queue : RunQueue} (found : dispatcher.queues[place]? = some queue)
    (placed : event.place? = some place) (permitted : dispatcher.permits event = true) :
    (dispatcher.after event).queues[place]? = some (queue.after dispatcher.now event) := by
  rw [queue_after permitted found, if_pos placed]

theorem EmptyAt.after (empty : dispatcher.EmptyAt places) (isWork : event.isWork = true)
    (permitted : dispatcher.permits event = true) :
    (dispatcher.after event).EmptyAt places ∧
      ((∀ place, event.place? = some place → places place) →
        Moment.endings ⟨dispatcher, event⟩ = []) := by
  constructor
  · intro place queue found within
    obtain ⟨before, foundBefore, rfl⟩ := queue_before isWork permitted found
    have nothing := empty place before foundBefore within
    split
    · rename_i placed
      have allowed := permits_of_placed permitted placed foundBefore
      exact (RunQueue.empty_after nothing isWork allowed _).1
    · exact nothing
  · intro within
    cases placed : event.place? with
    | none => exact Moment.endings_of_no_place placed
    | some place =>
        obtain ⟨queue, found, allowed⟩ := permits_place placed permitted
        rw [Moment.endings_eq placed found]
        exact (RunQueue.empty_after (empty place queue found (within place placed)) isWork allowed
          _).2

def Quiet (dispatcher later : Dispatcher) : Prop :=
  later.results = dispatcher.results ∧ later.ledger = dispatcher.ledger

/-- The request has been run by itself, and there is no other. -/
structure Serves (dispatcher : Dispatcher) (request : Request) (later : Dispatcher) : Prop where
  idle : later.Idle
  results : later.results = dispatcher.results.set request.id request.ownResult
  ledger : later.ledger = request.target.record dispatcher.ledger 0 request.ownResult

theorem Serves.result? {later : Dispatcher} (serves : dispatcher.Serves request later) :
    later.result? request.id = some request.ownResult := by
  rw [Dispatcher.result?, serves.results, Table.get?_set, if_pos rfl]

theorem Quiet.result? {later : Dispatcher} (quiet : dispatcher.Quiet later) (id : RequestId) :
    later.result? id = dispatcher.result? id := by
  rw [Dispatcher.result?, quiet.1, Dispatcher.result?]

theorem Quiet.trans {middle later : Dispatcher} (first : dispatcher.Quiet middle)
    (second : middle.Quiet later) : dispatcher.Quiet later :=
  ⟨second.1.trans first.1, second.2.trans first.2⟩

theorem ledger_of_work (isWork : event.isWork = true)
    (permitted : dispatcher.permits event = true) :
    (dispatcher.after event).ledger =
      Group.record dispatcher.ledger 0 (Ending.runs (Moment.endings ⟨dispatcher, event⟩)) := by
  refine ledger_after permitted ?_
  rintro account rfl
  cases isWork

theorem quiet_of_nothing (isWork : event.isWork = true)
    (permitted : dispatcher.permits event = true)
    (nothing : Moment.endings ⟨dispatcher, event⟩ = []) :
    dispatcher.Quiet (dispatcher.after event) := by
  have results := results_after isWork permitted
  have ledger := ledger_of_work isWork permitted
  rw [nothing] at results ledger
  exact ⟨results, ledger⟩

theorem serves_of_return (isWork : event.isWork = true)
    (permitted : dispatcher.permits event = true) (idle : (dispatcher.after event).Idle)
    (ends : Moment.endings ⟨dispatcher, event⟩ = [(request, .returned request.ownResult)]) :
    dispatcher.Serves request (dispatcher.after event) := by
  have results := results_after isWork permitted
  have ledger := ledger_of_work isWork permitted
  rw [ends] at results ledger
  exact ⟨idle, results, ledger⟩

theorem Idle.after (idle : dispatcher.Idle) (isWork : event.isWork = true)
    (permitted : dispatcher.permits event = true) :
    (dispatcher.after event).Idle ∧ dispatcher.Quiet (dispatcher.after event) := by
  obtain ⟨empty, ends⟩ := (idle_iff.mp idle).after isWork permitted
  exact ⟨idle_iff.mpr empty, quiet_of_nothing isWork permitted (ends fun _ _ => trivial)⟩

theorem Attends.cases_after (attends : dispatcher.Attends place request)
    (patient : request.deadline = none) (isWork : event.isWork = true)
    (permitted : dispatcher.permits event = true) :
    (dispatcher.after event).Attends place request ∧
        Moment.endings ⟨dispatcher, event⟩ = [] ∨
      (dispatcher.after event).Idle ∧ request.isServedAlone = true ∧
        Moment.endings ⟨dispatcher, event⟩ = [(request, .returned request.ownResult)] := by
  obtain ⟨queue, found, only, taken⟩ := attends.here
  obtain ⟨elsewhere, noEndings⟩ := attends.elsewhere.after isWork permitted
  have foundAfter := queue_after permitted found
  by_cases placed : event.place? = some place
  · have allowed := permits_of_placed permitted placed found
    have served := RunQueue.isServedAlone_of_taken only patient allowed taken dispatcher.now
    rw [if_pos placed] at foundAfter
    rw [Moment.endings_eq placed found]
    rcases RunQueue.lone_after only patient isWork allowed dispatcher.now with
      ⟨stays, ends⟩ | ⟨empty, ends⟩
    · refine Or.inl ⟨⟨⟨_, foundAfter, stays, fun holds => ?_⟩, elsewhere⟩, ends⟩
      exact served (List.mem_append_left _ holds)
    · refine Or.inr ⟨idle_iff.mpr fun other behind foundToo _ => ?_, served ?_, ends⟩
      · by_cases same : other = place
        · subst same
          cases foundAfter.symm.trans foundToo
          exact empty
        · exact elsewhere other behind foundToo same
      · rw [ends]
        exact List.mem_append_right _ (List.mem_singleton.mpr rfl)
  · rw [if_neg placed] at foundAfter
    refine Or.inl ⟨⟨⟨queue, foundAfter, only, taken⟩, elsewhere⟩, noEndings ?_⟩
    rintro other there rfl
    exact placed there

/-- The request is still there behind a step, or it has been run by itself. -/
theorem Attends.after (attends : dispatcher.Attends place request)
    (patient : request.deadline = none) (isWork : event.isWork = true)
    (permitted : dispatcher.permits event = true) :
    (dispatcher.after event).Attends place request ∧ dispatcher.Quiet (dispatcher.after event) ∨
      request.isServedAlone = true ∧ dispatcher.Serves request (dispatcher.after event) := by
  rcases attends.cases_after patient isWork permitted with ⟨stays, ends⟩ | ⟨idle, served, ends⟩
  · exact Or.inl ⟨stays, quiet_of_nothing isWork permitted ends⟩
  · exact Or.inr ⟨served, serves_of_return isWork permitted idle ends⟩

theorem Idle.push {queue : RunQueue} (idle : dispatcher.Idle)
    (found : dispatcher.queues[place]? = some queue) (isOpen : queue.isOpen = true)
    (request : Request) :
    (dispatcher.push place request).Attends place request ∧
      dispatcher.Quiet (dispatcher.push place request) := by
  have change := Change.push found request
  have noEndings : queue.endings dispatcher.now (.push place request) = [] := by
    rw [RunQueue.endings, if_pos isOpen]
  have permitted : dispatcher.permits (.push place request) = true :=
    permits_of_queue found rfl rfl
  have before := idle queue (List.mem_of_getElem? found)
  obtain ⟨pending, held⟩ := List.append_eq_nil_iff.mp before
  let later := queue.after dispatcher.now (.push place request)
  have there : (dispatcher.push place request).queues[place]? = some later :=
    (congrArg (·[place]?) change.queues).trans
      (List.getElem?_set_self (List.getElem?_eq_some_iff.mp found).1)
  have heldToo : later.held = [] := (RunQueue.held_after_push ..).trans held
  have only : later.contents = [request] := by
    rw [RunQueue.contents, RunQueue.pending_after_push isOpen, pending, heldToo]
    rfl
  refine ⟨⟨⟨later, there, only, ?_⟩, ?_⟩, ⟨?_, ?_⟩⟩
  · rw [heldToo]
    exact fun member => (List.not_mem_nil member).elim
  · intro other behind foundToo apart
    have kept := (congrArg (·[other]?) change.queues).symm.trans foundToo
    rw [List.getElem?_set_ne (Ne.symm apart)] at kept
    exact idle behind (List.mem_of_getElem? kept)
  · have settled := change.results
    rwa [noEndings] at settled
  · have entered := ledger_after permitted (fun _ => Event.noConfusion)
    rwa [Moment.endings_eq rfl found, noEndings] at entered

end Dispatcher

namespace Engine

variable {engine : Engine}

theorem idle_ensureQueue (idle : engine.dispatcher.Idle) (device : Device) :
    (engine.ensureQueue device).1.dispatcher.Idle ∧
      engine.dispatcher.Quiet (engine.ensureQueue device).1.dispatcher := by
  unfold ensureQueue
  split
  · exact ⟨idle, rfl, rfl⟩
  · refine ⟨?_, rfl, rfl⟩
    intro queue member
    rcases List.mem_append.mp member with before | last
    · exact idle queue before
    · rw [List.mem_singleton.mp last, RunQueue.contents, RunQueue.held, List.flatMap_replicate]
      simp [RunQueue.pending, Worker.group]

theorem attends_submit (isOpen : ∀ queue ∈ engine.dispatcher.queues, queue.isOpen = true)
    (idle : engine.dispatcher.Idle) (target : Target) (inputs : List Tensor) (outputCount : Nat)
    (deadline : Option Nat) :
    ∃ place request, request.id = (engine.submit target inputs outputCount deadline).2 ∧
      request.target = target ∧ request.inputs = inputs ∧ request.outputCount = outputCount ∧
      request.deadline = deadline ∧
      (engine.submit target inputs outputCount deadline).1.dispatcher.Attends place request ∧
      engine.dispatcher.Quiet (engine.submit target inputs outputCount deadline).1.dispatcher := by
  let ready := (engine.ensureQueue target.device).1
  let place := (engine.ensureQueue target.device).2
  let request := ready.dispatcher.newRequest target inputs outputCount deadline
  have within : place < ready.dispatcher.queues.length := place_of_ensureQueue ..
  have found : ready.dispatcher.queues[place]? = some ready.dispatcher.queues[place] :=
    List.getElem?_eq_getElem within
  have opened := isOpen_ensureQueue isOpen target.device _ (List.getElem_mem within)
  obtain ⟨readyIdle, ready⟩ := idle_ensureQueue idle target.device
  obtain ⟨attends, pushed⟩ := readyIdle.push found opened request
  exact ⟨place, request, rfl, rfl, rfl, rfl, rfl, attends, ready.trans pushed⟩

end Engine

end InferenceStore
