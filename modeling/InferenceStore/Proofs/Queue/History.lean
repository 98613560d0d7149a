import InferenceStore.Queue.Dispatcher

/-
Histories of run queues. The events are the steps of a dispatcher, each with the state of the
worker that it needs. A run takes permitted events in any order and any number, so what holds of
every run holds however clients, workers and the clock interleave. The order in which the
dispatcher itself lets workers act is one of these, as `Driven.exists_run` says.

A look and the sleep behind it are one event, and so are a push and the wake-ups it causes. Taken
apart they lead to no other states, as `Fine.Reaches.exists_run` says. A sleeper may wake at any
moment; nothing here rests on its waking late.
-/

namespace InferenceStore

inductive Event where
  | openQueue (device : Device) (threads : Nat)
  | push (place : Nat) (request : Request)
  | close (place : Nat)
  | look (id : WorkerId)
  | returnCall (id : WorkerId)
  | wake (id : WorkerId)
  | advance (moment : Nat)
  | reset (account : InstanceId)

namespace Event

def place? : Event → Option Nat
  | .push place _ | .close place => some place
  | .look id | .returnCall id | .wake id => some id.queue
  | .openQueue _ _ | .advance _ | .reset _ => none

def pushed : Event → List Request
  | .push _ request => [request]
  | _ => []

end Event

/-- How a request leaves its queue for good. -/
inductive Ending where
  | timedOut
  | queueClosed
  | returned (share : Outcome (List Tensor))

namespace Ending

def result : Ending → Outcome (List Tensor)
  | .timedOut => .error .timedOut
  | .queueClosed => .error .queueClosed
  | .returned share => share

def isReturn : Ending → Bool
  | .returned _ => true
  | _ => false

def run (endings : List (Request × Ending)) : List Request :=
  (endings.filter fun ending => ending.2.isReturn).map Prod.fst

theorem run_of_not_return (ending : Ending) (waited : ending.isReturn = false)
    (requests : List Request) : run (requests.map fun request => (request, ending)) = [] := by
  simp [run, waited]

theorem run_shares (shares : List (Request × Outcome (List Tensor))) :
    run (shares.map fun share => (share.1, .returned share.2)) = shares.map Prod.fst := by
  induction shares with
  | nil => rfl
  | cons share rest ih => exact congrArg (share.1 :: ·) ih

end Ending

namespace Worker

def isLooking : Worker → Bool
  | .looking => true
  | _ => false

def isRunning : Worker → Bool
  | .running _ => true
  | _ => false

def group : Worker → List Request
  | .running group => group
  | _ => []

end Worker

namespace RunQueue

/-- Requests that wait; none once the queue is closed. -/
def pending (queue : RunQueue) : List Request := queue.waiting.getD []

def held (queue : RunQueue) : List Request := queue.workers.flatMap Worker.group

/-- Whether a worker is in the state that the event starts from. -/
def permits (queue : RunQueue) : Event → Bool
  | .look id => queue.workers[id.worker]?.any Worker.isLooking
  | .returnCall id => queue.workers[id.worker]?.any Worker.isRunning
  | .wake id => queue.workers[id.worker]?.any Worker.isAsleep
  | _ => true

/-- What a look finds, which is nothing in a closed queue. -/
def selection (queue : RunQueue) (now : Nat) : Selection := Selection.ofQueue queue.pending now

def duty (queue : RunQueue) (now : Nat) : Worker :=
  if queue.waiting.isNone then .stopped
  else if (queue.selection now).group.isEmpty then
    .asleep ((queue.selection now).wakeAt.getD (now + Dispatcher.idleWait))
  else .running (queue.selection now).group

def after (queue : RunQueue) (now : Nat) : Event → RunQueue
  | .push _ request =>
      if queue.isOpen then
        { queue with waiting := some (queue.pending ++ [request]) }.wakeAll
      else queue
  | .close _ => { queue with waiting := none }.wakeAll
  | .look id =>
      { queue with waiting := queue.waiting.map fun _ => (queue.selection now).waiting }.setWorker
        id.worker (queue.duty now)
  | .returnCall id => queue.setWorker id.worker .looking
  | .wake id => queue.setWorker id.worker .looking
  | _ => queue

def selected (queue : RunQueue) (now : Nat) : Event → List Request
  | .look _ => (queue.selection now).group
  | _ => []

/-- The share of each member in what the run of its group gives. -/
def shares (group : List Request) : List (Request × Outcome (List Tensor)) :=
  group.zip (Group.results group (Group.run group (Group.inputs group)))

def endings (queue : RunQueue) (now : Nat) : Event → List (Request × Ending)
  | .push _ request => if queue.isOpen then [] else [(request, .queueClosed)]
  | .close _ => queue.pending.map fun request => (request, .queueClosed)
  | .look _ => (queue.selection now).expired.map fun request => (request, .timedOut)
  | .returnCall id =>
      (shares (queue.workers[id.worker]?.elim [] Worker.group)).map fun share =>
        (share.1, .returned share.2)
  | _ => []

theorem pending_of_closed {queue : RunQueue} (closed : queue.isOpen = false) :
    queue.pending = [] := by
  unfold pending
  rw [Option.not_isSome_iff_eq_none.mp (Bool.eq_false_iff.mp closed), Option.getD_none]

theorem pending_after_push {queue : RunQueue} (isOpen : queue.isOpen = true) (now place : Nat)
    (request : Request) :
    (queue.after now (.push place request)).pending = queue.pending ++ [request] := by
  simp [after, isOpen, pending, wakeAll]

theorem pending_after_look (queue : RunQueue) (now : Nat) (id : WorkerId) :
    (queue.after now (.look id)).pending = (queue.selection now).waiting := by
  cases waitingAt : queue.waiting with
  | none =>
      have nothing : queue.pending = [] := pending_of_closed (by simp [isOpen, waitingAt])
      simp [after, pending, setWorker, waitingAt, selection, Selection.ofQueue]
  | some waiting => simp [after, pending, setWorker, waitingAt]

end RunQueue

namespace Dispatcher

def queueOf? (dispatcher : Dispatcher) (event : Event) : Option RunQueue :=
  event.place?.bind fun place => dispatcher.queues[place]?

/-- The clock never goes back, and a queue has to be there. -/
def permits (dispatcher : Dispatcher) (event : Event) : Bool :=
  match event with
  | .openQueue _ _ | .reset _ => true
  | .advance moment => dispatcher.now ≤ moment
  | event => (dispatcher.queueOf? event).any (·.permits event)

def after (dispatcher : Dispatcher) : Event → Dispatcher
  | .openQueue device threads => dispatcher.openQueue device threads
  | .push place request => dispatcher.push place request
  | .close place => dispatcher.close place
  | .look id => dispatcher.look id
  | .returnCall id => dispatcher.returnCall id
  | .wake id => dispatcher.wake id
  | .advance moment => { dispatcher with now := moment }
  | .reset account => { dispatcher with ledger := dispatcher.ledger.reset account }

end Dispatcher

structure Moment where
  state : Dispatcher
  event : Event

namespace Moment

def selected (moment : Moment) : List Request :=
  (moment.state.queueOf? moment.event).elim [] fun queue =>
    queue.selected moment.state.now moment.event

def endings (moment : Moment) : List (Request × Ending) :=
  (moment.state.queueOf? moment.event).elim [] fun queue =>
    queue.endings moment.state.now moment.event

variable {dispatcher : Dispatcher} {event : Event} {place : Nat} {queue : RunQueue}

theorem selected_eq (placed : event.place? = some place)
    (found : dispatcher.queues[place]? = some queue) :
    Moment.selected ⟨dispatcher, event⟩ = queue.selected dispatcher.now event := by
  simp [selected, Dispatcher.queueOf?, placed, found]

theorem endings_eq (placed : event.place? = some place)
    (found : dispatcher.queues[place]? = some queue) :
    Moment.endings ⟨dispatcher, event⟩ = queue.endings dispatcher.now event := by
  simp [endings, Dispatcher.queueOf?, placed, found]

theorem endings_of_no_place (placed : event.place? = none) :
    Moment.endings ⟨dispatcher, event⟩ = [] := by
  simp [endings, Dispatcher.queueOf?, placed]

theorem selected_of_no_place (placed : event.place? = none) :
    Moment.selected ⟨dispatcher, event⟩ = [] := by
  simp [selected, Dispatcher.queueOf?, placed]

end Moment

/-- What has happened, oldest first. -/
abbrev History := List Moment

namespace History

def of (history : History) (place : Nat) : History :=
  history.filter fun moment => moment.event.place? == some place

def pushed (history : History) : List Request := history.flatMap fun moment => moment.event.pushed

def selected (history : History) : List Request := history.flatMap Moment.selected

def endings (history : History) : List (Request × Ending) := history.flatMap Moment.endings

theorem pushed_append (front back : History) :
    History.pushed (front ++ back) = front.pushed ++ back.pushed :=
  List.flatMap_append

theorem pushed_snoc (history : History) (moment : Moment) :
    History.pushed (history ++ [moment]) = history.pushed ++ moment.event.pushed := by
  simp [pushed]

theorem endings_snoc (history : History) (moment : Moment) :
    History.endings (history ++ [moment]) = history.endings ++ moment.endings := by
  simp [endings]

end History

/-- Every state that a dispatcher reaches, with the way there. A request is pushed once. -/
inductive Run : History → Dispatcher → Prop
  | start : Run [] .initial
  | step {history : History} {dispatcher : Dispatcher} (run : Run history dispatcher)
      (event : Event) (permitted : dispatcher.permits event = true)
      (fresh : ∀ request ∈ event.pushed, request.id ∉ history.pushed.map Request.id) :
      Run (history ++ [⟨dispatcher, event⟩]) (dispatcher.after event)

namespace History

def extend (reached : History × Dispatcher) (event : Event) : Option (History × Dispatcher) :=
  let (history, dispatcher) := reached
  if dispatcher.permits event ∧
      ∀ request ∈ event.pushed, request.id ∉ history.pushed.map Request.id then
    some (history ++ [⟨dispatcher, event⟩], dispatcher.after event)
  else none

def replay (events : List Event) : Option (History × Dispatcher) :=
  events.foldlM extend ([], .initial)

theorem run_of_foldlM {events : List Event} {history later : History}
    {dispatcher final : Dispatcher} (run : Run history dispatcher)
    (replayed : events.foldlM extend (history, dispatcher) = some (later, final)) :
    Run later final := by
  induction events generalizing history dispatcher with
  | nil =>
      cases replayed
      exact run
  | cons event rest ih =>
      rw [List.foldlM_cons] at replayed
      obtain ⟨⟨next, state⟩, extended, onward⟩ := Option.bind_eq_some_iff.mp replayed
      simp only [extend] at extended
      split at extended
      · rename_i allowed
        cases extended
        exact ih (.step run event allowed.1 allowed.2) onward
      · cases extended

theorem run_of_replay {events : List Event} {history : History} {dispatcher : Dispatcher}
    (replayed : replay events = some (history, dispatcher)) : Run history dispatcher :=
  run_of_foldlM .start replayed

theorem exists_run {α : Type} (events : List Event) (observe : History × Dispatcher → α) (seen : α)
    (replayed : (replay events).map observe = some seen) :
    ∃ history dispatcher, Run history dispatcher ∧ observe (history, dispatcher) = seen := by
  obtain ⟨⟨history, dispatcher⟩, reached, same⟩ := Option.map_eq_some_iff.mp replayed
  exact ⟨history, dispatcher, run_of_replay reached, same⟩

end History

/-! ### Requests to replay -/

namespace Sample

def echo (policy : BatchPolicy) : Model :=
  { id := 0
    key := "echo"
    definition := ⟨.torch, .cpu, "", [], [], policy⟩
    inputCount := 1
    outputCount := 1
    blob := []
    registration := 0
    handle := ⟨1, 1, Except.ok⟩ }

def row : Tensor := ⟨.int8, [1, 1], [7], by decide⟩

def request (policy : BatchPolicy) (id : RequestId) (deadline : Option Nat) : Request :=
  { id := id
    target := .model (echo policy)
    inputs := [row]
    outputCount := 1
    deadline := deadline
    enqueuedAt := 0 }

end Sample

end InferenceStore
