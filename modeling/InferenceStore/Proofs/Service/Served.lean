import InferenceStore.Proofs.Service.Driver
import InferenceStore.Proofs.Service.Lone

/-
A lone request is served if it would be served alone. A queue that is open has a worker, and none
of its workers has stopped. So there is always a way on: a worker looks once the patience of the
policy is over, finds the request, and its call returns.
-/

namespace InferenceStore

namespace RunQueue

/-- There is a worker, and none has stopped. -/
def Manned (queue : RunQueue) : Prop :=
  queue.workers ≠ [] ∧ ∀ worker ∈ queue.workers, worker.isStopped = false

variable {queue : RunQueue} {now : Nat} {event : Event}

theorem manned_opened (device : Device) (threads : Nat) :
    (RunQueue.opened device threads).Manned := by
  constructor
  · intro empty
    have length := congrArg List.length empty
    simp only [opened, List.length_replicate, List.length_nil] at length
    omega
  · intro worker member
    rw [List.eq_of_mem_replicate member]
    rfl

theorem manned_wakeAll (manned : queue.Manned) : queue.wakeAll.Manned := by
  constructor
  · exact fun empty => manned.1 (List.map_eq_nil_iff.mp empty)
  · intro worker member
    obtain ⟨before, known, rfl⟩ := List.mem_map.mp member
    split
    · rfl
    · exact manned.2 before known

theorem Manned.setWorker (manned : queue.Manned) (index : Nat) {worker : Worker}
    (runs : worker.isStopped = false) : (queue.setWorker index worker).Manned := by
  constructor
  · intro empty
    have length := congrArg List.length empty
    simp only [RunQueue.setWorker, List.length_set] at length
    exact manned.1 (List.length_eq_zero_iff.mp length)
  · intro other member
    rcases List.mem_or_eq_of_mem_set member with before | rfl
    · exact manned.2 other before
    · exact runs

theorem Manned.after (manned : queue.Manned) (isOpen : (queue.after now event).waiting ≠ none) :
    (queue.after now event).Manned := by
  cases event with
  | push place request =>
      simp only [RunQueue.after]
      split
      · exact manned_wakeAll manned
      · exact manned
  | close place => exact absurd rfl isOpen
  | look id =>
      have works : (queue.duty now).isStopped = false := by
        have waiting : queue.waiting ≠ none :=
          fun closed => isOpen (stays_closed closed now (.look id))
        unfold duty
        rw [if_neg (by simpa using waiting)]
        split <;> rfl
      exact manned.setWorker id.worker works
  | returnCall id => exact manned.setWorker id.worker rfl
  | wake id => exact manned.setWorker id.worker rfl
  | _ => exact manned

end RunQueue

theorem Run.manned {history : History} {dispatcher : Dispatcher} {place : Nat} {queue : RunQueue}
    (run : Run history dispatcher) (found : dispatcher.queues[place]? = some queue)
    (isOpen : queue.waiting ≠ none) : queue.Manned := by
  refine run.on_queue (motive := fun _ _ queue => queue.waiting ≠ none → queue.Manned) ?_
    (fun _ kept => kept) ?_ found isOpen
  · exact fun _ device threads _ => RunQueue.manned_opened device threads
  · intro history dispatcher queue event _ _ _ _ before stillOpen
    exact (before fun closed => stillOpen (RunQueue.stays_closed closed _ _)).after stillOpen

namespace Engine.Sound

variable {engine : Engine} {records : Records}

theorem manned (sound : engine.Sound records) :
    ∀ queue ∈ engine.dispatcher.queues, queue.Manned := by
  intro queue member
  have isOpen : queue.waiting ≠ none := Option.isSome_iff_ne_none.mp (sound.isOpen queue member)
  obtain ⟨state, run, alike⟩ := sound.run
  rw [← alike.queues] at member
  obtain ⟨place, found⟩ := List.getElem?_of_mem member
  exact run.manned found isOpen

theorem result?_next (sound : engine.Sound records) :
    engine.dispatcher.result? engine.dispatcher.nextRequest = none := by
  obtain ⟨state, run, alike⟩ := sound.run
  by_contra known
  obtain ⟨result, found⟩ := Option.ne_none_iff_exists'.mp known
  have inState : state.result? engine.dispatcher.nextRequest = some result := by
    rw [Dispatcher.result?, alike.results]
    exact found
  obtain ⟨request, ending, ended, number, _⟩ := (run.result?_iff _ result).mp inState
  have pushed : request ∈ records.past.pushed := run.conserved.subset
    (List.mem_append_right _ (List.mem_map_of_mem (f := Prod.fst) ended))
  have below := sound.numbered request pushed
  rw [number] at below
  exact Nat.lt_irrefl _ below

end Engine.Sound

namespace Dispatcher

/-- A way on by workers and the clock on which the request is served. -/
def CanServe (dispatcher : Dispatcher) (request : Request) : Prop :=
  ∃ later, dispatcher.Works later ∧ dispatcher.Serves request later

variable {dispatcher : Dispatcher} {event : Event} {place : Nat} {request : Request}
  {queue : RunQueue}

theorem Attends.canServe_of_after (attends : dispatcher.Attends place request)
    (patient : request.deadline = none) (isWork : event.isWork = true)
    (permitted : dispatcher.permits event = true)
    (onward : (dispatcher.after event).Attends place request →
      (dispatcher.after event).CanServe request) : dispatcher.CanServe request := by
  have stepped := Works.refl.step permitted isWork
  rcases attends.after patient isWork permitted with ⟨stays, results, ledger⟩ | ⟨_, serves⟩
  · obtain ⟨later, works, idle, ownResult, booked⟩ := onward stays
    exact ⟨later, stepped.trans works, idle, results ▸ ownResult, ledger ▸ booked⟩
  · exact ⟨_, stepped, serves⟩

/-- A request that is with a worker is served when the call of the worker returns. -/
theorem Attends.canServe_of_held (attends : dispatcher.Attends place request)
    (patient : request.deadline = none) (found : dispatcher.queues[place]? = some queue)
    (holds : request ∈ queue.held) : dispatcher.CanServe request := by
  obtain ⟨worker, member, inGroup⟩ := List.mem_flatMap.mp holds
  obtain ⟨index, located⟩ := List.getElem?_of_mem member
  have running : worker.isRunning = true := by
    cases worker with
    | running group => rfl
    | _ => cases inGroup
  have permitted : dispatcher.permits (.returnCall ⟨place, index⟩) = true := by
    refine permits_of_queue found rfl ?_
    rw [RunQueue.permits, located, Option.any_some, running]
  have ending : request ∈
      (Moment.endings ⟨dispatcher, .returnCall ⟨place, index⟩⟩).map Prod.fst := by
    have ends : Moment.endings ⟨dispatcher, .returnCall ⟨place, index⟩⟩ =
        queue.endings dispatcher.now (.returnCall ⟨place, index⟩) :=
      Moment.endings_eq rfl found
    simp only [ends, RunQueue.endings, located, Option.elim_some, List.map_map,
      Function.comp_def, RunQueue.shares_requests]
    exact inGroup
  rcases attends.cases_after patient rfl permitted with ⟨_, nothing⟩ | ⟨idle, _, ends⟩
  · rw [nothing] at ending
    cases ending
  · exact ⟨_, Works.refl.step permitted rfl, serves_of_return rfl permitted idle ends⟩

/-- A look behind the patience of the policy takes a request that would be served alone. -/
theorem Attends.canServe_of_looking (attends : dispatcher.Attends place request)
    (patient : request.deadline = none) (served : request.isServedAlone = true)
    (late : request.enqueuedAt + request.policy.minBatchTimeout ≤ dispatcher.now)
    (found : dispatcher.queues[place]? = some queue) (waits : queue.pending = [request])
    (looks : queue.workers[0]? = some .looking) : dispatcher.CanServe request := by
  have permitted : dispatcher.permits (.look ⟨place, 0⟩) = true := by
    refine permits_of_queue found rfl ?_
    rw [RunQueue.permits, looks, Option.any_some, Worker.isLooking]
  refine attends.canServe_of_after patient rfl permitted fun stays => ?_
  refine stays.canServe_of_held patient (queue_after_here found rfl permitted) ?_
  have isOpen : queue.waiting ≠ none := by
    intro closed
    rw [RunQueue.pending, closed] at waits
    cases waits
  have group : (queue.selection dispatcher.now).group = [request] := by
    rw [RunQueue.selection, waits, Selection.group_lone patient,
      if_pos (Selection.isReady_of_isServedAlone served late)]
  have duty : queue.duty dispatcher.now = .running [request] := by
    simp [RunQueue.duty, group, isOpen]
  have within : 0 < queue.workers.length := (List.getElem?_eq_some_iff.mp looks).1
  refine List.mem_flatMap.mpr ⟨.running [request], ?_, List.mem_singleton.mpr rfl⟩
  simp only [RunQueue.after, RunQueue.setWorker, duty]
  exact List.mem_set within _

theorem Attends.canServe_of_waiting (attends : dispatcher.Attends place request)
    (patient : request.deadline = none) (served : request.isServedAlone = true)
    (late : request.enqueuedAt + request.policy.minBatchTimeout ≤ dispatcher.now)
    (found : dispatcher.queues[place]? = some queue) (waits : queue.pending = [request])
    (manned : queue.Manned) : dispatcher.CanServe request := by
  obtain ⟨workers, running⟩ := manned
  obtain ⟨worker, others, first⟩ := List.exists_cons_of_ne_nil workers
  have located : queue.workers[0]? = some worker := by rw [first, List.getElem?_cons_zero]
  have roused (event : Event) (placed : event.place? = some place) (isWork : event.isWork = true)
      (permitted : queue.permits event = true)
      (becomes : queue.after dispatcher.now event = queue.setWorker 0 .looking) :
      dispatcher.CanServe request := by
    have allowed := permits_of_queue found placed permitted
    refine attends.canServe_of_after patient isWork allowed fun stays => ?_
    have foundAfter := queue_after_here found placed allowed
    rw [becomes] at foundAfter
    refine stays.canServe_of_looking patient served (Nat.le_trans late (now_le_after allowed))
      foundAfter waits ?_
    rw [RunQueue.setWorker, List.getElem?_set_self (List.getElem?_eq_some_iff.mp located).1]
  cases worker with
  | looking => exact attends.canServe_of_looking patient served late found waits located
  | running group =>
      refine roused (.returnCall ⟨place, 0⟩) rfl rfl ?_ rfl
      rw [RunQueue.permits, located, Option.any_some, Worker.isRunning]
  | asleep moment =>
      refine roused (.wake ⟨place, 0⟩) rfl rfl ?_ rfl
      rw [RunQueue.permits, located, Option.any_some, Worker.isAsleep]
  | stopped => exact absurd (running _ (List.mem_of_getElem? located)) Bool.noConfusion

theorem Attends.canServe (attends : dispatcher.Attends place request)
    (patient : request.deadline = none) (served : request.isServedAlone = true)
    (manned : ∀ queue ∈ dispatcher.queues, queue.Manned) : dispatcher.CanServe request := by
  let late := max dispatcher.now (request.enqueuedAt + request.policy.minBatchTimeout)
  have permitted : dispatcher.permits (.advance late) = true :=
    decide_eq_true (Nat.le_max_left ..)
  refine attends.canServe_of_after patient rfl permitted fun stays => ?_
  obtain ⟨queue, found, only, _⟩ := stays.here
  rcases RunQueue.cases_of_lone only with ⟨waits, _⟩ | ⟨_, held⟩
  · exact stays.canServe_of_waiting patient served (Nat.le_max_right ..) found waits
      (manned queue (List.mem_of_getElem? found))
  · exact stays.canServe_of_held patient found (held ▸ List.mem_singleton.mpr rfl)

end Dispatcher

end InferenceStore
