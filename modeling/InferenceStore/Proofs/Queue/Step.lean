import InferenceStore.Proofs.Queue.History

/-
What one event changes. An event about a queue changes that queue as `RunQueue.after` says and no
other one, and the results by the requests that it completes. Everything later about runs rests on
these statements and opens no step of the dispatcher again.
-/

namespace InferenceStore

namespace Dispatcher

def settle (results : Table RequestId (Outcome (List Tensor))) (endings : List (Request × Ending)) :
    Table RequestId (Outcome (List Tensor)) :=
  endings.foldl (fun table ending => table.set ending.1.id ending.2.result) results

variable {dispatcher : Dispatcher}

private theorem foldl_complete (shares : List (Request × Outcome (List Tensor)))
    (dispatcher : Dispatcher) :
    shares.foldl (fun state share => state.complete share.1 share.2) dispatcher =
      { dispatcher with
        results := shares.foldl (fun table share => table.set share.1.id share.2)
          dispatcher.results } := by
  induction shares generalizing dispatcher with
  | nil => rfl
  | cons share rest ih =>
      simp only [List.foldl_cons, ih]
      rfl

theorem completeAll_eq (dispatcher : Dispatcher) (requests : List Request)
    (ending : Ending) :
    dispatcher.completeAll requests ending.result =
      { dispatcher with
        results := settle dispatcher.results (requests.map fun request => (request, ending)) } := by
  induction requests generalizing dispatcher with
  | nil => rfl
  | cons request rest ih =>
      have rested := ih (dispatcher.complete request ending.result)
      simp only [completeAll, List.foldl_cons] at rested ⊢
      rw [rested]
      rfl

theorem deliver_outcome (dispatcher : Dispatcher) (group : List Request)
    (outcome : Outcome (List Tensor)) :
    dispatcher.deliver group outcome =
      { dispatcher with
        results := settle dispatcher.results
          ((group.zip (Group.results group outcome)).map fun share => (share.1, .returned share.2))
        ledger := Group.record dispatcher.ledger 0 (group.zip (Group.results group outcome)) } := by
  unfold deliver settle
  simp only [foldl_complete, List.foldl_map]
  rfl

theorem deliver_eq (dispatcher : Dispatcher) (group : List Request) :
    dispatcher.deliver group (Group.run group (Group.inputs group)) =
      { dispatcher with
        results := settle dispatcher.results
          ((RunQueue.shares group).map fun share => (share.1, .returned share.2))
        ledger := Group.record dispatcher.ledger 0 (RunQueue.shares group) } :=
  deliver_outcome ..

private theorem queues_wakeQueue (dispatcher : Dispatcher) {place : Nat} {queue : RunQueue}
    (found : dispatcher.queues[place]? = some queue) :
    (dispatcher.wakeQueue place).queues = dispatcher.queues.set place queue.wakeAll := by
  simp only [wakeQueue, found, setQueue]

private theorem results_wakeQueue (dispatcher : Dispatcher) (place : Nat) :
    (dispatcher.wakeQueue place).results = dispatcher.results := by
  unfold wakeQueue
  split <;> rfl

private theorem now_wakeQueue (dispatcher : Dispatcher) (place : Nat) :
    (dispatcher.wakeQueue place).now = dispatcher.now := by
  unfold wakeQueue
  split <;> rfl

end Dispatcher

open Dispatcher

/-- What an event about a queue does to the whole state. -/
structure Change (dispatcher : Dispatcher) (place : Nat) (queue : RunQueue)
    (event : Event) : Prop where
  queues : (dispatcher.after event).queues =
    dispatcher.queues.set place (queue.after dispatcher.now event)
  results : (dispatcher.after event).results =
    settle dispatcher.results (queue.endings dispatcher.now event)
  now : (dispatcher.after event).now = dispatcher.now

namespace Change

variable {dispatcher : Dispatcher} {place : Nat} {queue : RunQueue}

private theorem set_found {α : Type} {items : List α} {place : Nat} {item : α}
    (found : items[place]? = some item) : items.set place item = items := by
  obtain ⟨within, same⟩ := List.getElem?_eq_some_iff.mp found
  rw [← same]
  exact List.set_getElem_self within

private theorem set_found_at {α : Type} {items : List α} {place : Nat} {item : α}
    (found : items[place]? = some item) (other : α) :
    (items.set place other)[place]? = some other :=
  List.getElem?_set_self (List.getElem?_eq_some_iff.mp found).1

theorem push (found : dispatcher.queues[place]? = some queue) (request : Request) :
    Change dispatcher place queue (.push place request) := by
  cases waitingAt : queue.waiting with
  | none =>
      constructor <;>
        simp [Dispatcher.after, Dispatcher.push, RunQueue.after, RunQueue.endings, RunQueue.isOpen,
          found, waitingAt, set_found found, complete, settle, Ending.result]
  | some waiting =>
      have woken := queues_wakeQueue (({ dispatcher with
        nextRequest := dispatcher.nextRequest + 1 } : Dispatcher).setQueue place
          { queue with waiting := some (waiting ++ [request]) })
        (set_found_at found _)
      constructor
      · simpa [Dispatcher.after, Dispatcher.push, RunQueue.after, RunQueue.isOpen, RunQueue.pending,
          found, waitingAt, setQueue] using woken
      · simp [Dispatcher.after, Dispatcher.push, RunQueue.endings, RunQueue.isOpen, found,
          waitingAt, results_wakeQueue, setQueue, settle]
      · simp [Dispatcher.after, Dispatcher.push, found, waitingAt, now_wakeQueue, setQueue]

theorem close (found : dispatcher.queues[place]? = some queue) :
    Change dispatcher place queue (.close place) := by
  let closed := dispatcher.setQueue place { queue with waiting := none }
  have settled : closed.completeAll queue.pending (.error .queueClosed) =
      { closed with
        results := settle dispatcher.results
          (queue.pending.map fun request => (request, .queueClosed)) } :=
    completeAll_eq closed queue.pending .queueClosed
  have stepped : dispatcher.after (.close place) =
      (closed.completeAll queue.pending (.error .queueClosed)).wakeQueue place := by
    simp only [Dispatcher.after, Dispatcher.close, found]
    rfl
  rw [settled] at stepped
  constructor
  · rw [stepped, queues_wakeQueue _ (set_found_at found _)]
    exact List.set_set ..
  · rw [stepped, results_wakeQueue]
    rfl
  · rw [stepped, now_wakeQueue]
    rfl

theorem look (id : WorkerId) (found : dispatcher.queues[id.queue]? = some queue) :
    Change dispatcher id.queue queue (.look id) := by
  cases waitingAt : queue.waiting with
  | none =>
      have nothing : (queue.selection dispatcher.now).expired = [] := by
        simp [RunQueue.selection, RunQueue.pending, waitingAt, Selection.ofQueue]
      constructor <;>
        simp [Dispatcher.after, Dispatcher.look, RunQueue.after, RunQueue.endings, RunQueue.duty,
          found, waitingAt, nothing, setQueue, settle, RunQueue.setWorker]
  | some waiting =>
      have selection : Selection.ofQueue waiting dispatcher.now =
          queue.selection dispatcher.now := by
        simp [RunQueue.selection, RunQueue.pending, waitingAt]
      have settled : dispatcher.completeAll (queue.selection dispatcher.now).expired
          (.error .timedOut) =
            { dispatcher with
              results := settle dispatcher.results
                ((queue.selection dispatcher.now).expired.map fun request =>
                  (request, .timedOut)) } :=
        completeAll_eq dispatcher _ .timedOut
      by_cases idle : (queue.selection dispatcher.now).group.isEmpty
      · constructor <;>
          simp [Dispatcher.after, Dispatcher.look, RunQueue.after, RunQueue.endings, RunQueue.duty,
            found, waitingAt, selection, settled, idle, setQueue]
      · constructor <;>
          simp [Dispatcher.after, Dispatcher.look, RunQueue.after, RunQueue.endings, RunQueue.duty,
            found, waitingAt, selection, settled, idle, setQueue]

theorem returnCall (id : WorkerId) (found : dispatcher.queues[id.queue]? = some queue)
    (permitted : queue.permits (.returnCall id) = true) :
    Change dispatcher id.queue queue (.returnCall id) := by
  cases workerAt : queue.workers[id.worker]? with
  | none => simp [RunQueue.permits, workerAt] at permitted
  | some worker =>
      cases worker with
      | running group =>
          constructor <;>
            simp [Dispatcher.after, Dispatcher.returnCall, RunQueue.after, RunQueue.endings,
              Worker.group, found, workerAt, deliver_eq, setQueue]
      | _ => simp [RunQueue.permits, workerAt, Worker.isRunning] at permitted

theorem wake (id : WorkerId) (found : dispatcher.queues[id.queue]? = some queue) :
    Change dispatcher id.queue queue (.wake id) := by
  constructor <;>
    simp [Dispatcher.after, Dispatcher.wake, RunQueue.after, RunQueue.endings, found, setQueue,
      settle]

/-- A permitted event about a queue changes that queue, completes requests, and keeps the rest. -/
theorem of_place {event : Event} (placed : event.place? = some place)
    (found : dispatcher.queues[place]? = some queue) (permitted : queue.permits event = true) :
    Change dispatcher place queue event := by
  cases event with
  | push other request => cases placed; exact push found request
  | close other => cases placed; exact close found
  | look id => cases placed; exact look id found
  | returnCall id => cases placed; exact returnCall id found permitted
  | wake id => cases placed; exact wake id found
  | openQueue device threads => cases placed
  | advance moment => cases placed
  | reset account => cases placed

end Change

namespace Dispatcher

variable {dispatcher : Dispatcher} {event : Event} {place : Nat}

theorem permits_place (placed : event.place? = some place)
    (permitted : dispatcher.permits event = true) :
    ∃ queue, dispatcher.queues[place]? = some queue ∧ queue.permits event = true := by
  have asked : (dispatcher.queueOf? event).any (·.permits event) = true := by
    cases event <;> first | exact permitted | cases placed
  simpa [queueOf?, placed, Option.any_eq_true] using asked

theorem permits_of_placed {queue : RunQueue} (permitted : dispatcher.permits event = true)
    (placed : event.place? = some place) (found : dispatcher.queues[place]? = some queue) :
    queue.permits event = true := by
  obtain ⟨other, foundToo, allowed⟩ := permits_place placed permitted
  cases found.symm.trans foundToo
  exact allowed

theorem permits_of_queue {queue : RunQueue}
    (found : dispatcher.queues[place]? = some queue)
    (placed : event.place? = some place) (permitted : queue.permits event = true) :
    dispatcher.permits event = true := by
  cases event <;> first
    | cases placed; done
    | cases placed
      simpa only [permits, queueOf?, Event.place?, Option.bind_some, found, Option.any_some]

theorem now_le_after (permitted : dispatcher.permits event = true) :
    dispatcher.now ≤ (dispatcher.after event).now := by
  cases placed : event.place? with
  | some place =>
      obtain ⟨queue, found, allowed⟩ := permits_place placed permitted
      exact Nat.le_of_eq (Change.of_place placed found allowed).now.symm
  | none =>
      cases event with
      | advance moment => simpa [permits, after] using permitted
      | openQueue device threads => exact Nat.le_refl _
      | reset account => exact Nat.le_refl _
      | _ => cases placed

end Dispatcher

def RunQueue.opened (device : Device) (threads : Nat) : RunQueue :=
  ⟨device, some [], List.replicate (max threads 1) .looking⟩

namespace History

theorem of_append (history later : History) (place : Nat) :
    History.of (history ++ later) place = history.of place ++ later.of place :=
  List.filter_append ..

theorem of_here {dispatcher : Dispatcher} {event : Event} {place : Nat} (history : History)
    (placed : event.place? = some place) :
    History.of (history ++ [⟨dispatcher, event⟩]) place =
      history.of place ++ [⟨dispatcher, event⟩] := by
  simp [History.of, placed]

theorem of_elsewhere {dispatcher : Dispatcher} {event : Event} {place : Nat} (history : History)
    (elsewhere : event.place? ≠ some place) :
    History.of (history ++ [⟨dispatcher, event⟩]) place = history.of place := by
  simp [History.of, elsewhere]

end History

namespace Dispatcher

variable {dispatcher : Dispatcher} {event : Event} {place : Nat}

theorem queue_after {queue : RunQueue} (permitted : dispatcher.permits event = true)
    (found : dispatcher.queues[place]? = some queue) :
    (dispatcher.after event).queues[place]? =
      some (if event.place? = some place then queue.after dispatcher.now event else queue) := by
  cases placed : event.place? with
  | some changed =>
      obtain ⟨before, foundAt, allowed⟩ := permits_place placed permitted
      have within := (List.getElem?_eq_some_iff.mp foundAt).1
      rw [(Change.of_place placed foundAt allowed).queues]
      by_cases same : changed = place
      · subst same
        rw [foundAt] at found
        cases found
        rw [List.getElem?_set_self within, if_pos rfl]
      · rw [List.getElem?_set_ne same, if_neg fun equal => same (Option.some.inj equal)]
        exact found
  | none =>
      rw [if_neg nofun]
      cases event with
      | openQueue device threads =>
          have within := (List.getElem?_eq_some_iff.mp found).1
          simp only [after, openQueue]
          rw [List.getElem?_append_left within]
          exact found
      | advance moment => exact found
      | reset account => exact found
      | _ => cases placed

theorem opened_of_absent {queue : RunQueue} (permitted : dispatcher.permits event = true)
    (absent : dispatcher.queues[place]? = none)
    (found : (dispatcher.after event).queues[place]? = some queue) :
    ∃ device threads, event = .openQueue device threads ∧ queue = .opened device threads := by
  cases placed : event.place? with
  | some changed =>
      obtain ⟨before, foundAt, allowed⟩ := permits_place placed permitted
      rw [(Change.of_place placed foundAt allowed).queues] at found
      have within := (List.getElem?_eq_some_iff.mp found).1
      rw [List.length_set] at within
      exact absurd within (Nat.not_lt_of_le (List.getElem?_eq_none_iff.mp absent))
  | none =>
      cases event with
      | openQueue device threads =>
          simp only [after, openQueue] at found
          rw [List.getElem?_append_right (List.getElem?_eq_none_iff.mp absent)] at found
          exact ⟨device, threads, rfl, List.mem_singleton.mp (List.mem_of_getElem? found)⟩
      | advance moment => exact absurd (absent.symm.trans found) nofun
      | reset account => exact absurd (absent.symm.trans found) nofun
      | _ => cases placed

end Dispatcher

namespace Run

variable {history : History} {dispatcher : Dispatcher} {place : Nat} {queue : RunQueue}

theorem before {earlier later : History} {moment : Moment}
    (run : Run (earlier ++ moment :: later) dispatcher) :
    Run earlier moment.state ∧ moment.state.permits moment.event = true := by
  generalize whole : earlier ++ moment :: later = history at run
  induction run generalizing later with
  | start => simp at whole
  | @step history dispatcher run event permitted fresh ih =>
      rcases List.eq_nil_or_concat later with ended | ⟨front, last, rfl⟩
      · subst ended
        obtain ⟨rfl, same⟩ := List.append_inj' whole rfl
        cases same
        exact ⟨run, permitted⟩
      · have shifted : (earlier ++ moment :: front) ++ [last] =
            history ++ [⟨dispatcher, event⟩] := by
          simpa using whole
        exact ih (List.append_inj' shifted rfl).1

theorem of_eq_nil (run : Run history dispatcher) (absent : dispatcher.queues[place]? = none) :
    history.of place = [] := by
  induction run with
  | start => rfl
  | @step history dispatcher run event permitted fresh ih =>
      have before : dispatcher.queues[place]? = none := by
        cases found : dispatcher.queues[place]? with
        | none => rfl
        | some queue =>
            exact absurd (absent.symm.trans (Dispatcher.queue_after permitted found)) nofun
      have elsewhere : event.place? ≠ some place := by
        intro placed
        obtain ⟨queue, found, _⟩ := Dispatcher.permits_place placed permitted
        exact absurd (before.symm.trans found) nofun
      rw [History.of_elsewhere history elsewhere]
      exact ih before

/-- What holds of a queue when it is opened, stays as the clock runs, and is kept by every event
about the queue holds of it in every run. -/
theorem on_queue {motive : History → Nat → RunQueue → Prop}
    (opened : ∀ now device threads, motive [] now (.opened device threads))
    (later : ∀ {history now moment queue}, now ≤ moment → motive history now queue →
      motive history moment queue)
    (stepped : ∀ {history dispatcher queue event}, Run history dispatcher →
      dispatcher.queues[place]? = some queue → event.place? = some place →
      queue.permits event = true → motive (history.of place) dispatcher.now queue →
      motive (history.of place ++ [⟨dispatcher, event⟩]) dispatcher.now
        (queue.after dispatcher.now event))
    (run : Run history dispatcher) (found : dispatcher.queues[place]? = some queue) :
    motive (history.of place) dispatcher.now queue := by
  induction run generalizing queue with
  | start => cases found
  | @step history dispatcher run event permitted fresh ih =>
      have onward := Dispatcher.now_le_after permitted
      cases foundBefore : dispatcher.queues[place]? with
      | some before =>
          rw [Dispatcher.queue_after permitted foundBefore, Option.some.injEq] at found
          split at found
          · rename_i placed
            obtain ⟨_, foundAt, allowed⟩ := Dispatcher.permits_place placed permitted
            cases foundBefore.symm.trans foundAt
            rw [← found, History.of_here history placed]
            exact later onward (stepped run foundBefore placed allowed (ih foundBefore))
          · rename_i elsewhere
            rw [← found, History.of_elsewhere history elsewhere]
            exact later onward (ih foundBefore)
      | none =>
          obtain ⟨device, threads, rfl, rfl⟩ :=
            Dispatcher.opened_of_absent permitted foundBefore found
          have elsewhere : (Event.openQueue device threads).place? ≠ some place := by
            simp [Event.place?]
          rw [History.of_elsewhere history elsewhere, of_eq_nil run foundBefore]
          exact opened _ device threads

end Run

end InferenceStore
