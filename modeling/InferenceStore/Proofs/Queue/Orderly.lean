import InferenceStore.Proofs.Queue.Step
import Mathlib.Data.List.Nodup

/-
Turns and calls in order. A worker that has a turn is about to look, a worker whose call is out
runs a group, and neither has two of them. Every step that the dispatcher or its clients make
keeps this, so a step taken from these lists is one that a run permits.
-/

namespace InferenceStore

theorem Worker.not_asleep {worker : Worker} (runs : worker.isRunning = true) :
    worker.isAsleep = false := by
  cases worker with
  | running group => rfl
  | _ => cases runs

namespace Dispatcher

variable {dispatcher : Dispatcher} {id other : WorkerId} {place : Nat} {queue : RunQueue}

/-! ### Workers -/

def workerAt? (dispatcher : Dispatcher) (id : WorkerId) : Option Worker :=
  dispatcher.queues[id.queue]?.bind fun queue => queue.workers[id.worker]?

theorem permits_look : dispatcher.permits (.look id) =
    (dispatcher.workerAt? id).any Worker.isLooking := by
  unfold workerAt?
  cases found : dispatcher.queues[id.queue]? <;>
    simp [permits, queueOf?, Event.place?, RunQueue.permits, found]

theorem permits_returnCall : dispatcher.permits (.returnCall id) =
    (dispatcher.workerAt? id).any Worker.isRunning := by
  unfold workerAt?
  cases found : dispatcher.queues[id.queue]? <;>
    simp [permits, queueOf?, Event.place?, RunQueue.permits, found]

theorem permits_wake : dispatcher.permits (.wake id) =
    (dispatcher.workerAt? id).any Worker.isAsleep := by
  unfold workerAt?
  cases found : dispatcher.queues[id.queue]? <;>
    simp [permits, queueOf?, Event.place?, RunQueue.permits, found]

def actor? : Event → Option WorkerId
  | .look id | .returnCall id | .wake id => some id
  | _ => none

def behind (queue : RunQueue) (now : Nat) : Event → Worker
  | .look _ => queue.duty now
  | _ => .looking

theorem workerAt?_after {event : Event} (acts : actor? event = some id)
    (permitted : dispatcher.permits event = true) :
    ∃ queue, dispatcher.queues[id.queue]? = some queue ∧
      ∀ other, (dispatcher.after event).workerAt? other =
        if other = id then some (behind queue dispatcher.now event)
        else dispatcher.workerAt? other := by
  have placed : event.place? = some id.queue := by
    cases event <;> cases acts <;> rfl
  obtain ⟨queue, found, allowed⟩ := permits_place placed permitted
  have change := Change.of_place placed found allowed
  have within : id.worker < queue.workers.length := by
    have there : ∃ worker, queue.workers[id.worker]? = some worker := by
      cases event <;> cases acts <;>
        exact ((Option.any_eq_true ..).mp allowed).imp fun _ both => both.1
    obtain ⟨worker, found⟩ := there
    exact (List.getElem?_eq_some_iff.mp found).1
  have workers : (queue.after dispatcher.now event).workers =
      queue.workers.set id.worker (behind queue dispatcher.now event) := by
    cases event <;> cases acts <;> rfl
  refine ⟨queue, found, ?_⟩
  intro other
  have bound := (List.getElem?_eq_some_iff.mp found).1
  unfold workerAt?
  rw [change.queues]
  by_cases same : id.queue = other.queue
  · rw [← same, List.getElem?_set_self bound, Option.bind_some, workers, found, Option.bind_some]
    by_cases worker : id.worker = other.worker
    · have equal : other = id := by
        cases id
        cases other
        cases same
        cases worker
        rfl
      rw [← worker, List.getElem?_set_self within, if_pos equal]
    · rw [List.getElem?_set_ne worker, if_neg fun equal => worker (by rw [equal])]
  · rw [List.getElem?_set_ne same, if_neg fun equal => same (by rw [equal])]

theorem keeps_others {event : Event} (acts : actor? event = some id)
    (permitted : dispatcher.permits event = true) (apart : other ≠ id) :
    (dispatcher.after event).workerAt? other = dispatcher.workerAt? other := by
  obtain ⟨_, _, steps⟩ := workerAt?_after acts permitted
  exact (steps other).trans (if_neg apart)

/-! ### Turns and calls -/

/-- Who has a turn is about to look, and whose call is out runs a group. -/
structure Orderly (dispatcher : Dispatcher) : Prop where
  turns : ∀ id ∈ dispatcher.turns, dispatcher.workerAt? id = some .looking
  turnsDistinct : dispatcher.turns.Nodup
  calls : ∀ id ∈ dispatcher.calls, (dispatcher.workerAt? id).any Worker.isRunning = true
  callsDistinct : dispatcher.calls.Nodup

theorem lists_look (found : dispatcher.queues[id.queue]? = some queue) :
    (dispatcher.look id).turns = dispatcher.turns ∧
      ((dispatcher.look id).calls = dispatcher.calls ∨
        (dispatcher.look id).calls = dispatcher.calls ++ [id] ∧
          (queue.duty dispatcher.now).isRunning = true) := by
  cases waitingAt : queue.waiting with
  | none => simp only [look, found, waitingAt, setQueue, true_and, true_or]
  | some waiting =>
      have selection : queue.selection dispatcher.now =
          Selection.ofQueue waiting dispatcher.now := by
        simp [RunQueue.selection, RunQueue.pending, waitingAt]
      have settled : dispatcher.completeAll
          (Selection.ofQueue waiting dispatcher.now).expired (.error .timedOut) = _ :=
        completeAll_eq dispatcher _ .timedOut
      by_cases idle : (Selection.ofQueue waiting dispatcher.now).group.isEmpty = true
      · simp only [look, found, waitingAt, if_pos idle, settled, setQueue, true_and, true_or]
      · simp only [look, found, waitingAt, if_neg idle, settled, setQueue, true_and]
        refine Or.inr ?_
        rw [RunQueue.duty, selection, if_neg idle, waitingAt]
        rfl

theorem permits_of_looking (looking : dispatcher.workerAt? id = some .looking) :
    dispatcher.permits (.look id) = true := by
  rw [permits_look, looking]
  rfl

theorem orderly_look (orderly : dispatcher.Orderly)
    (looking : dispatcher.workerAt? id = some .looking) (free : id ∉ dispatcher.turns) :
    (dispatcher.look id).Orderly := by
  obtain ⟨queue, found, steps⟩ :=
    workerAt?_after (show actor? (.look id) = some id from rfl) (permits_of_looking looking)
  have own : (dispatcher.look id).workerAt? id = some (queue.duty dispatcher.now) :=
    (steps id).trans (if_pos rfl)
  have others {other : WorkerId} (apart : other ≠ id) :
      (dispatcher.look id).workerAt? other = dispatcher.workerAt? other :=
    (steps other).trans (if_neg apart)
  have idle : id ∉ dispatcher.calls := by
    intro called
    have running := orderly.calls id called
    rw [looking] at running
    cases running
  have called : ∀ other ∈ dispatcher.calls,
      ((dispatcher.look id).workerAt? other).any Worker.isRunning = true := by
    intro other member
    rw [others (ne_of_mem_of_not_mem member idle)]
    exact orderly.calls other member
  obtain ⟨turns, calls⟩ := lists_look found
  constructor
  · rw [turns]
    intro other member
    rw [others (ne_of_mem_of_not_mem member free)]
    exact orderly.turns other member
  · rw [turns]
    exact orderly.turnsDistinct
  · rcases calls with same | ⟨sent, runs⟩
    · rw [same]
      exact called
    · rw [sent]
      intro other member
      rcases List.mem_append.mp member with before | last
      · exact called other before
      · rw [List.mem_singleton.mp last, own]
        exact runs
  · rcases calls with same | ⟨sent, _⟩
    · rw [same]
      exact orderly.callsDistinct
    · rw [sent, ← List.concat_eq_append]
      exact orderly.callsDistinct.concat idle

private theorem orderly_of_turn {front back : Dispatcher} (orderly : front.Orderly)
    (turns : back.turns = front.turns ++ [id]) (calls : back.calls = front.calls)
    (own : back.workerAt? id = some .looking)
    (others : ∀ other, other ≠ id → back.workerAt? other = front.workerAt? other)
    (noTurn : id ∉ front.turns) (noCall : id ∉ front.calls) : back.Orderly := by
  constructor
  · rw [turns]
    intro other member
    rcases List.mem_append.mp member with before | last
    · rw [others other (ne_of_mem_of_not_mem before noTurn)]
      exact orderly.turns other before
    · rw [List.mem_singleton.mp last]
      exact own
  · rw [turns, ← List.concat_eq_append]
    exact orderly.turnsDistinct.concat noTurn
  · rw [calls]
    intro other member
    rw [others other (ne_of_mem_of_not_mem member noCall)]
    exact orderly.calls other member
  · rw [calls]
    exact orderly.callsDistinct

private theorem no_turn (orderly : dispatcher.Orderly) {state : Worker → Bool}
    (known : (dispatcher.workerAt? id).any state = true) (apart : state .looking = false) :
    id ∉ dispatcher.turns := by
  intro member
  rw [orderly.turns id member, Option.any_some, apart] at known
  cases known

theorem orderly_returnCall (orderly : dispatcher.Orderly)
    (running : (dispatcher.workerAt? id).any Worker.isRunning = true)
    (taken : id ∉ dispatcher.calls) : (dispatcher.returnCall id).Orderly := by
  have permitted : dispatcher.permits (.returnCall id) = true := permits_returnCall.trans running
  obtain ⟨queue, found, steps⟩ :=
    workerAt?_after (show actor? (.returnCall id) = some id from rfl) permitted
  obtain ⟨group, runs⟩ : ∃ group, queue.workers[id.worker]? = some (.running group) := by
    rw [workerAt?, found, Option.bind_some] at running
    obtain ⟨worker, located, runs⟩ := (Option.any_eq_true ..).mp running
    cases worker with
    | running group => exact ⟨group, located⟩
    | _ => cases runs
  have lists : (dispatcher.returnCall id).turns = dispatcher.turns ++ [id] ∧
      (dispatcher.returnCall id).calls = dispatcher.calls := by
    simp only [returnCall, found, runs, deliver_eq, setQueue, and_self]
  exact orderly_of_turn orderly lists.1 lists.2 ((steps id).trans (if_pos rfl))
    (fun other apart => (steps other).trans (if_neg apart)) (no_turn orderly running rfl) taken

theorem orderly_wake (orderly : dispatcher.Orderly)
    (sleeps : (dispatcher.workerAt? id).any Worker.isAsleep = true) :
    (dispatcher.wake id).Orderly := by
  have permitted : dispatcher.permits (.wake id) = true := permits_wake.trans sleeps
  obtain ⟨queue, found, steps⟩ :=
    workerAt?_after (show actor? (.wake id) = some id from rfl) permitted
  have noCall : id ∉ dispatcher.calls := by
    intro member
    obtain ⟨worker, there, runs⟩ := (Option.any_eq_true ..).mp (orderly.calls id member)
    rw [there, Option.any_some, Worker.not_asleep runs] at sleeps
    cases sleeps
  have lists : (dispatcher.wake id).turns = dispatcher.turns ++ [id] ∧
      (dispatcher.wake id).calls = dispatcher.calls := by
    simp only [wake, found, setQueue, and_self]
  exact orderly_of_turn orderly lists.1 lists.2 ((steps id).trans (if_pos rfl))
    (fun other apart => (steps other).trans (if_neg apart)) (no_turn orderly sleeps rfl) noCall

/-! ### Clients -/

theorem orderly_initial : Dispatcher.initial.Orderly :=
  ⟨fun _ member => (List.not_mem_nil member).elim, List.nodup_nil,
    fun _ member => (List.not_mem_nil member).elim, List.nodup_nil⟩

theorem places_differ {α : Type} (items : List α) :
    items.zipIdx.Pairwise fun a b => a.2 ≠ b.2 := by
  have places : (items.zipIdx.map Prod.snd).Nodup := by
    rw [List.zipIdx_map_snd]
    exact List.nodup_range'
  exact List.pairwise_map.mp places

private theorem orderly_of_same {front back : Dispatcher} (orderly : front.Orderly)
    (workers : ∀ id, back.workerAt? id = front.workerAt? id) (turns : back.turns = front.turns)
    (calls : back.calls = front.calls) : back.Orderly := by
  constructor
  · simpa only [workers, turns] using orderly.turns
  · simpa only [turns] using orderly.turnsDistinct
  · simpa only [workers, calls] using orderly.calls
  · simpa only [calls] using orderly.callsDistinct

private theorem workerAt?_wakeQueue (found : dispatcher.queues[place]? = some queue)
    (id : WorkerId) : (dispatcher.wakeQueue place).workerAt? id =
      if id.queue = place then
        (dispatcher.workerAt? id).map fun worker => if worker.isAsleep then .looking else worker
      else dispatcher.workerAt? id := by
  have bound := (List.getElem?_eq_some_iff.mp found).1
  simp only [workerAt?, wakeQueue, found, setQueue]
  by_cases here : id.queue = place
  · subst here
    rw [List.getElem?_set_self bound, found, if_pos rfl]
    exact List.getElem?_map
  · rw [List.getElem?_set_ne (Ne.symm here), if_neg here]

private theorem sleepers_nodup (queue : RunQueue) : queue.sleepers.Nodup :=
  List.pairwise_map.mpr ((places_differ queue.workers).filter _)

private theorem mem_sleepers {index : Nat} :
    index ∈ queue.sleepers ↔ queue.workers[index]?.any Worker.isAsleep = true := by
  unfold RunQueue.sleepers
  simp only [List.mem_map, List.mem_filter, Prod.exists, exists_eq_right,
    List.mem_zipIdx_iff_getElem?, Option.any_eq_true]

theorem orderly_wakeQueue (orderly : dispatcher.Orderly)
    (found : dispatcher.queues[place]? = some queue) : (dispatcher.wakeQueue place).Orderly := by
  have lists : (dispatcher.wakeQueue place).turns =
        dispatcher.turns ++ queue.sleepers.map (fun worker => ⟨place, worker⟩) ∧
      (dispatcher.wakeQueue place).calls = dispatcher.calls := by
    simp only [wakeQueue, found, setQueue, and_self]
  have asleep : ∀ id ∈ queue.sleepers.map (fun worker => (⟨place, worker⟩ : WorkerId)),
      id.queue = place ∧ (dispatcher.workerAt? id).any Worker.isAsleep = true := by
    intro id member
    obtain ⟨worker, sleeps, rfl⟩ := List.mem_map.mp member
    refine ⟨rfl, ?_⟩
    rw [workerAt?, found]
    exact mem_sleepers.mp sleeps
  constructor
  · rw [lists.1]
    intro id member
    rw [workerAt?_wakeQueue found]
    rcases List.mem_append.mp member with before | woken
    · rw [orderly.turns id before]
      split <;> rfl
    · obtain ⟨here, sleeps⟩ := asleep id woken
      obtain ⟨worker, there, sleeping⟩ := (Option.any_eq_true ..).mp sleeps
      rw [if_pos here, there, Option.map_some, if_pos sleeping]
  · rw [lists.1]
    refine orderly.turnsDistinct.append ?_ ?_
    · exact (sleepers_nodup queue).map fun first second same => congrArg WorkerId.worker same
    · intro id before woken
      exact no_turn orderly (asleep id woken).2 rfl before
  · rw [lists.2]
    intro id member
    obtain ⟨worker, there, runs⟩ := (Option.any_eq_true ..).mp (orderly.calls id member)
    rw [workerAt?_wakeQueue found, there]
    split
    · rw [Option.map_some, Worker.not_asleep runs]
      exact runs
    · exact runs
  · rw [lists.2]
    exact orderly.callsDistinct

private theorem workerAt?_setQueue {other : RunQueue}
    (found : dispatcher.queues[place]? = some queue) (workers : other.workers = queue.workers)
    (id : WorkerId) : (dispatcher.setQueue place other).workerAt? id = dispatcher.workerAt? id := by
  have bound := (List.getElem?_eq_some_iff.mp found).1
  unfold workerAt? setQueue
  by_cases here : id.queue = place
  · subst here
    rw [List.getElem?_set_self bound, found, Option.bind_some, Option.bind_some, workers]
  · rw [List.getElem?_set_ne (Ne.symm here)]

theorem orderly_push (orderly : dispatcher.Orderly) (place : Nat) (request : Request) :
    (dispatcher.push place request).Orderly := by
  cases found : dispatcher.queues[place]? with
  | none =>
      simp only [push, found]
      exact orderly_of_same orderly (fun _ => rfl) rfl rfl
  | some queue =>
      cases waitingAt : queue.waiting with
      | none =>
          have refused : dispatcher.push place request =
              { dispatcher with nextRequest := dispatcher.nextRequest + 1 }.complete request
                (.error .queueClosed) := by
            simp only [push, found, waitingAt]
          rw [refused]
          exact orderly_of_same orderly (fun _ => rfl) rfl rfl
      | some waiting =>
          have joined : dispatcher.push place request =
              ({ dispatcher with nextRequest := dispatcher.nextRequest + 1 }.setQueue place
                { queue with waiting := some (waiting ++ [request]) }).wakeQueue place := by
            simp only [push, found, waitingAt]
          rw [joined]
          refine orderly_wakeQueue (orderly_of_same orderly ?_ rfl rfl)
            (List.getElem?_set_self (List.getElem?_eq_some_iff.mp found).1)
          exact workerAt?_setQueue found rfl

theorem orderly_close (orderly : dispatcher.Orderly) (place : Nat) :
    (dispatcher.close place).Orderly := by
  cases found : dispatcher.queues[place]? with
  | none =>
      simp only [close, found]
      exact orderly
  | some queue =>
      have settled : (dispatcher.setQueue place { queue with waiting := none }).completeAll
          (queue.waiting.getD []) (.error .queueClosed) = _ :=
        completeAll_eq _ _ .queueClosed
      simp only [close, found, settled]
      refine orderly_wakeQueue (orderly_of_same orderly ?_ rfl rfl)
        (List.getElem?_set_self (List.getElem?_eq_some_iff.mp found).1)
      exact workerAt?_setQueue found rfl

theorem orderly_openQueue (orderly : dispatcher.Orderly) (device : Device) (threads : Nat) :
    (dispatcher.openQueue device threads).Orderly := by
  have older {id : WorkerId} {worker : Worker} (there : dispatcher.workerAt? id = some worker) :
      id.queue < dispatcher.queues.length ∧
        (dispatcher.openQueue device threads).workerAt? id = some worker := by
    obtain ⟨queue, found, located⟩ := Option.bind_eq_some_iff.mp there
    have bound := (List.getElem?_eq_some_iff.mp found).1
    refine ⟨bound, ?_⟩
    simp only [workerAt?, openQueue]
    rw [List.getElem?_append_left bound]
    exact there
  constructor
  · intro id member
    rcases List.mem_append.mp member with before | opened
    · exact (older (orderly.turns id before)).2
    · obtain ⟨worker, inRange, rfl⟩ := List.mem_map.mp opened
      simp only [workerAt?, openQueue]
      rw [List.getElem?_append_right (Nat.le_refl _), Nat.sub_self]
      exact List.getElem?_replicate_of_lt (List.mem_range.mp inRange)
  · refine orderly.turnsDistinct.append ?_ ?_
    · exact List.nodup_range.map fun first second same => congrArg WorkerId.worker same
    · intro id before opened
      obtain ⟨worker, _, rfl⟩ := List.mem_map.mp opened
      exact absurd (older (orderly.turns _ before)).1 (Nat.lt_irrefl _)
  · intro id member
    obtain ⟨worker, there, runs⟩ := (Option.any_eq_true ..).mp (orderly.calls id member)
    rw [(older there).2]
    exact runs
  · exact orderly.callsDistinct

end Dispatcher

end InferenceStore
