import InferenceStore.Proofs.Service.Reachable

/-
Requests that clients leave in run queues. Queues of a store that started empty are never closed,
so a client that begins to wait finds its request among those that wait, under its own number.
-/

namespace InferenceStore

def Dispatcher.pending (dispatcher : Dispatcher) : List Request :=
  dispatcher.queues.flatMap RunQueue.pending

def Request.asked (request : Request) : Target × List Tensor × Nat :=
  (request.target, request.inputs, request.outputCount)

namespace Engine

variable {engine : Engine} {records : Records}

namespace Sound

theorem isOpen (sound : engine.Sound records) :
    ∀ queue ∈ engine.dispatcher.queues, queue.isOpen = true := by
  obtain ⟨state, run, alike⟩ := sound.run
  intro queue member
  rw [← alike.queues] at member
  obtain ⟨place, found⟩ := List.getElem?_of_mem member
  rw [RunQueue.isOpen, Option.isSome_iff_ne_none]
  intro closed
  obtain ⟨moment, happened, closes⟩ := (run.closed_iff found).mp closed
  exact sound.unclosed moment happened place closes

theorem pushed_of_pending (sound : engine.Sound records) {request : Request}
    (waits : request ∈ engine.dispatcher.pending) : request ∈ records.past.pushed := by
  obtain ⟨state, run, alike⟩ := sound.run
  obtain ⟨queue, member, inQueue⟩ := List.mem_flatMap.mp waits
  rw [← alike.queues] at member
  obtain ⟨place, found⟩ := List.getElem?_of_mem member
  exact run.pushed_of_pending found inQueue

theorem find_pending (sound : engine.Sound records) {request : Request}
    (waits : request ∈ engine.dispatcher.pending) :
    engine.dispatcher.pending.find? (fun other => other.id == request.id) = some request := by
  obtain ⟨state, run, _⟩ := sound.run
  cases found : engine.dispatcher.pending.find? fun other => other.id == request.id with
  | none =>
      have apart := List.find?_eq_none.mp found request waits
      exact absurd (beq_self_eq_true request.id) apart
  | some other =>
      have same : other.id = request.id := by simpa using List.find?_some found
      have pushed := sound.pushed_of_pending (List.mem_of_find?_eq_some found)
      rw [List.inj_on_of_nodup_map run.distinct pushed (sound.pushed_of_pending waits) same]

end Sound

theorem isOpen_ensureQueue (isOpen : ∀ queue ∈ engine.dispatcher.queues, queue.isOpen = true)
    (device : Device) :
    ∀ queue ∈ (engine.ensureQueue device).1.dispatcher.queues, queue.isOpen = true := by
  unfold ensureQueue
  split
  · exact isOpen
  · intro queue member
    rcases List.mem_append.mp member with before | last
    · exact isOpen queue before
    · rw [List.mem_singleton.mp last]
      rfl

theorem pending_submit (isOpen : ∀ queue ∈ engine.dispatcher.queues, queue.isOpen = true)
    (target : Target) (inputs : List Tensor) (outputCount : Nat) (deadline : Option Nat) :
    ∃ request ∈ (engine.submit target inputs outputCount deadline).1.dispatcher.pending,
      request.id = engine.dispatcher.nextRequest ∧
        request.asked = (target, inputs, outputCount) := by
  let ready := (engine.ensureQueue target.device).1
  let place := (engine.ensureQueue target.device).2
  let request := ready.dispatcher.newRequest target inputs outputCount deadline
  have within : place < ready.dispatcher.queues.length := place_of_ensureQueue ..
  let queue := ready.dispatcher.queues[place]
  have found : ready.dispatcher.queues[place]? = some queue := List.getElem?_eq_getElem within
  have opened : queue.isOpen = true :=
    isOpen_ensureQueue isOpen target.device queue (List.getElem_mem within)
  have queues := (Change.push found request).queues
  refine ⟨request, ?_, nextRequest_ensureQueue .., rfl⟩
  apply List.mem_flatMap.mpr
  refine ⟨queue.after ready.dispatcher.now (.push place request), ?_, ?_⟩
  · change _ ∈ (ready.dispatcher.after (.push place request)).queues
    rw [queues]
    exact List.mem_set within _
  · rw [RunQueue.pending_after_push opened]
    exact List.mem_append_right _ (List.mem_singleton.mpr rfl)

end Engine

namespace Service

/-- The request that the client leaves to be run, found where it waits. -/
def Moment.submitted? (moment : Moment) : Option Request :=
  moment.leaves?.bind fun execution =>
    moment.after.engine.dispatcher.pending.find? fun request => request.id == execution.request

def History.submitted (history : History) (client : Nat) : List Request :=
  (history.of client).filterMap Moment.submitted?

def History.delivered (history : History) (client : Nat) : List (Outcome (List Tensor)) :=
  (history.of client).filterMap Moment.delivered?

variable {config : Config} {clustered : Bool} {history : History} {service : Service}
  {client : Nat}

def Moment.IsSound (moment : Moment) : Prop :=
  (∃ records, moment.before.engine.Sound records) ∧ ∃ records, moment.after.engine.Sound records

theorem Moment.Submits.submitted {moment : Moment} {asked : Target × List Tensor × Nat}
    (submits : moment.Submits asked) (sound : moment.IsSound) :
    ∃ request, moment.submitted? = some request ∧ request.asked = asked := by
  obtain ⟨deadline, same⟩ := submits.engine
  obtain ⟨execution, leaves, number⟩ := submits.waits
  obtain ⟨⟨_, before⟩, _, after⟩ := sound
  obtain ⟨request, waits, id, run⟩ :=
    Engine.pending_submit before.isOpen asked.1 asked.2.1 asked.2.2 deadline
  refine ⟨request, ?_, run⟩
  rw [← same] at waits
  rw [submitted?, leaves, Option.bind_some, number, ← id]
  exact after.find_pending waits

theorem Run.sound_moment (run : Run (.create config clustered) history service) {moment : Moment}
    (happened : moment ∈ history) : moment.IsSound := by
  obtain ⟨earlier, later, rfl⟩ := List.append_of_mem happened
  obtain ⟨reached, permitted⟩ := run.before
  obtain ⟨_, before⟩ := reached.sound
  obtain ⟨_, after⟩ := (Run.step reached moment.action permitted).sound
  exact ⟨⟨_, before.engine⟩, _, after.engine⟩

theorem asked_of_submits {moments : History} {asked : List (Target × List Tensor × Nat)}
    (each : List.Forall₂ Moment.Submits moments asked)
    (sound : ∀ moment ∈ moments, moment.IsSound) :
    (moments.filterMap Moment.submitted?).map Request.asked = asked := by
  induction each with
  | nil => rfl
  | cons submits _ ih =>
      obtain ⟨here, others⟩ := List.forall_mem_cons.mp sound
      obtain ⟨request, found, same⟩ := submits.submitted here
      rw [List.filterMap_cons_some found, List.map_cons, same, ih others]

/-- The requests that a client has left are those that its graph asked for, in order. -/
theorem Run.submitted_eq (run : Run (.create config clustered) history service)
    {deeds : List Deed} {pending : List (Target × List Tensor × Nat)}
    (told : Told client (history.of client) deeds pending) :
    (history.submitted client).map Request.asked = deeds.filterMap Deed.asked? ++ pending := by
  have leaving : history.submitted client =
      ((history.of client).filter fun moment => moment.leaves?.isSome).filterMap
        Moment.submitted? := by
    rw [List.filterMap_filter]
    apply List.filterMap_congr
    intro moment _
    cases leaves : moment.leaves? <;> simp [Moment.submitted?, leaves]
  rw [leaving]
  apply asked_of_submits told.submitted
  intro moment member
  exact run.sound_moment (List.mem_filter.mp (List.mem_filter.mp member).1).1

end Service

end InferenceStore
