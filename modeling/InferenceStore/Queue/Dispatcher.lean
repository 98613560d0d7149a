import InferenceStore.Queue.Group
import InferenceStore.Queue.Selection

/-
Run queues and their workers on one clock. The state changes by single events only: a push, a
close, a look of one worker at its queue, the return of one backend call, and the clock. Each
event is a total function on the state, and everything that runs is a sequence of them.

Workers take turns in the order in which they were woken, and backend calls return in the order
in which they were sent. The clock moves only when no worker has a turn and no call is out.
-/

namespace InferenceStore

inductive Worker where
  | looking
  | running (group : List Request)
  /-- Sleeps until a push, a close or this moment. -/
  | asleep (wakeAt : Nat)
  | stopped

namespace Worker

def isStopped : Worker → Bool
  | .stopped => true
  | _ => false

def isAsleep : Worker → Bool
  | .asleep _ => true
  | _ => false

def wakeAt? : Worker → Option Nat
  | .asleep moment => some moment
  | _ => none

end Worker

structure RunQueue where
  device : Device
  /-- Requests in the order of their arrival; `none` once the queue is closed. -/
  waiting : Option (List Request)
  workers : List Worker

namespace RunQueue

def isOpen (queue : RunQueue) : Bool := queue.waiting.isSome

def waitingCount (queue : RunQueue) : Nat := (queue.waiting.getD []).length

def runningCount (queue : RunQueue) : Nat :=
  (queue.workers.filter fun worker => !worker.isStopped).length

def setWorker (queue : RunQueue) (index : Nat) (worker : Worker) : RunQueue :=
  { queue with workers := queue.workers.set index worker }

def wakeAll (queue : RunQueue) : RunQueue :=
  { queue with
    workers := queue.workers.map fun worker => if worker.isAsleep then .looking else worker }

def sleepers (queue : RunQueue) : List Nat :=
  (queue.workers.zipIdx.filter fun placed => placed.1.isAsleep).map Prod.snd

end RunQueue

structure WorkerId where
  queue : Nat
  worker : Nat
  deriving DecidableEq, Repr

structure BackendCall where
  registration : Nat
  batchSize : Nat
  deriving DecidableEq, Repr

structure Dispatcher where
  now : Nat
  queues : List RunQueue
  /-- Workers about to look, in the order of their turns. -/
  turns : List WorkerId
  /-- Workers whose call is out, in the order in which the calls return. -/
  calls : List WorkerId
  results : Table RequestId (Outcome (List Tensor))
  ledger : Ledger
  journal : List BackendCall
  nextRequest : RequestId

namespace Dispatcher

def initial : Dispatcher :=
  { now := 0
    queues := []
    turns := []
    calls := []
    results := .empty
    ledger := .empty
    journal := []
    nextRequest := 0 }

/-- How long a worker sleeps when nothing in its queue has a time of its own. -/
def idleWait : Nat := 100

def setQueue (dispatcher : Dispatcher) (index : Nat) (queue : RunQueue) : Dispatcher :=
  { dispatcher with queues := dispatcher.queues.set index queue }

def result? (dispatcher : Dispatcher) (id : RequestId) : Option (Outcome (List Tensor)) :=
  dispatcher.results.get? id

def complete (dispatcher : Dispatcher) (request : Request) (result : Outcome (List Tensor)) :
    Dispatcher :=
  { dispatcher with results := dispatcher.results.set request.id result }

def completeAll (dispatcher : Dispatcher) (requests : List Request)
    (result : Outcome (List Tensor)) : Dispatcher :=
  requests.foldl (fun state request => state.complete request result) dispatcher

def openQueue (dispatcher : Dispatcher) (device : Device) (threads : Nat) : Dispatcher :=
  let workers := max threads 1
  let index := dispatcher.queues.length
  { dispatcher with
    queues := dispatcher.queues ++ [⟨device, some [], List.replicate workers .looking⟩]
    turns := dispatcher.turns ++ (List.range workers).map fun worker => ⟨index, worker⟩ }

def wakeQueue (dispatcher : Dispatcher) (index : Nat) : Dispatcher :=
  match dispatcher.queues[index]? with
  | none => dispatcher
  | some queue =>
      { dispatcher.setQueue index queue.wakeAll with
        turns := dispatcher.turns ++ queue.sleepers.map fun worker => ⟨index, worker⟩ }

def newRequest (dispatcher : Dispatcher) (target : Target) (inputs : List Tensor)
    (outputCount : Nat) (deadline : Option Nat) : Request :=
  { id := dispatcher.nextRequest
    target := target
    inputs := inputs
    outputCount := outputCount
    deadline := deadline
    enqueuedAt := dispatcher.now }

/-- Queues a request made now, or fails it if the queue is closed. -/
def push (dispatcher : Dispatcher) (index : Nat) (request : Request) : Dispatcher :=
  let counted := { dispatcher with nextRequest := dispatcher.nextRequest + 1 }
  match dispatcher.queues[index]? with
  | none => counted
  | some queue =>
      match queue.waiting with
      | none => counted.complete request (.error .queueClosed)
      | some waiting =>
          (counted.setQueue index { queue with waiting := some (waiting ++ [request]) }).wakeQueue
            index

def close (dispatcher : Dispatcher) (index : Nat) : Dispatcher :=
  match dispatcher.queues[index]? with
  | none => dispatcher
  | some queue =>
      let closed := dispatcher.setQueue index { queue with waiting := none }
      (closed.completeAll (queue.waiting.getD []) (.error .queueClosed)).wakeQueue index

/-- A worker looks at its queue: it stops if the queue is closed; else it fails what has expired
and sends the group it finds, or goes to sleep if there is none. -/
def look (dispatcher : Dispatcher) (id : WorkerId) : Dispatcher :=
  match dispatcher.queues[id.queue]? with
  | none => dispatcher
  | some queue =>
      match queue.waiting with
      | none => dispatcher.setQueue id.queue (queue.setWorker id.worker .stopped)
      | some waiting =>
          let selection := Selection.ofQueue waiting dispatcher.now
          let left := { queue with waiting := some selection.waiting }
          let cleared := dispatcher.completeAll selection.expired (.error .timedOut)
          if selection.group.isEmpty then
            let wakeAt := selection.wakeAt.getD (dispatcher.now + idleWait)
            cleared.setQueue id.queue (left.setWorker id.worker (.asleep wakeAt))
          else
            { cleared.setQueue id.queue (left.setWorker id.worker (.running selection.group)) with
              calls := cleared.calls ++ [id] }

def takeTurns (dispatcher : Dispatcher) : Dispatcher :=
  dispatcher.turns.foldl look { dispatcher with turns := [] }

/-- What the backend of a group records of a call. Script calls are not recorded. -/
def callOf (group : List Request) (inputs : Outcome (List Tensor)) : List BackendCall :=
  match group, inputs with
  | first :: _, .ok tensors =>
      match first.target with
      | .model model => [⟨model.registration, (tensors.head?.map Tensor.batchSize).getD 0⟩]
      | .script _ => []
  | _, _ => []

def deliver (dispatcher : Dispatcher) (group : List Request) (outcome : Outcome (List Tensor)) :
    Dispatcher :=
  let shares := group.zip (Group.results group outcome)
  let delivered :=
    shares.foldl (fun state share => state.complete share.1 share.2) dispatcher
  { delivered with ledger := Group.record delivered.ledger 0 shares }

def returnCall (dispatcher : Dispatcher) (id : WorkerId) : Dispatcher :=
  match dispatcher.queues[id.queue]? with
  | none => dispatcher
  | some queue =>
      match queue.workers[id.worker]? with
      | some (.running group) =>
          let inputs := Group.inputs group
          let delivered := dispatcher.deliver group (Group.run group inputs)
          { delivered.setQueue id.queue (queue.setWorker id.worker .looking) with
            turns := delivered.turns ++ [id]
            journal := delivered.journal ++ callOf group inputs }
      | _ => dispatcher

def nextReturn? (dispatcher : Dispatcher) : Option Dispatcher :=
  match dispatcher.calls with
  | [] => none
  | id :: rest => some ({ dispatcher with calls := rest }.returnCall id)

def dueWorkers (dispatcher : Dispatcher) : List WorkerId :=
  let due := dispatcher.queues.zipIdx.flatMap fun placed =>
    placed.1.workers.zipIdx.filterMap fun worker =>
      match worker.1.wakeAt? with
      | some moment =>
          if moment ≤ dispatcher.now then some (moment, (⟨placed.2, worker.2⟩ : WorkerId))
          else none
      | none => none
  (due.mergeSort fun a b => decide (a.1 ≤ b.1)).map Prod.snd

def wake (dispatcher : Dispatcher) (id : WorkerId) : Dispatcher :=
  match dispatcher.queues[id.queue]? with
  | none => dispatcher
  | some queue =>
      { dispatcher.setQueue id.queue (queue.setWorker id.worker .looking) with
        turns := dispatcher.turns ++ [id] }

def nextWake? (dispatcher : Dispatcher) : Option Nat :=
  (dispatcher.queues.flatMap fun queue => queue.workers.filterMap Worker.wakeAt?).min?

def advanceTo (dispatcher : Dispatcher) (moment : Nat) : Dispatcher :=
  let later := { dispatcher with now := moment }
  later.dueWorkers.foldl wake later

/-- Lets the clock run to the next moment at which a worker wakes, or to `limit`. -/
def tick (dispatcher : Dispatcher) (limit : Nat) : Dispatcher :=
  dispatcher.advanceTo (min limit (max dispatcher.now (dispatcher.nextWake?.getD limit)))

def load (dispatcher : Dispatcher) : Nat :=
  sizeSum (dispatcher.queues.map RunQueue.waitingCount) + dispatcher.calls.length

/-- Runs until `isOver` holds when nobody has a turn, or until the clock is at `limit`. Every
round but the last returns a call or moves the clock. -/
def runRounds (isOver : Dispatcher → Bool) (limit : Nat) : Nat → Dispatcher → Dispatcher
  | 0, dispatcher => dispatcher
  | rounds + 1, dispatcher =>
      let settled := dispatcher.takeTurns
      if isOver settled then settled
      else
        match settled.nextReturn? with
        | some returned => runRounds isOver limit rounds returned
        | none =>
            let ticked := settled.tick limit
            if limit ≤ ticked.now then ticked
            else runRounds isOver limit rounds ticked

def runUntil (dispatcher : Dispatcher) (isOver : Dispatcher → Bool) (limit : Nat) : Dispatcher :=
  if isOver dispatcher ∨ limit ≤ dispatcher.now then dispatcher
  else
    runRounds isOver limit (limit - dispatcher.now + dispatcher.load + 2) dispatcher

def sleep (dispatcher : Dispatcher) (milliseconds : Nat) : Dispatcher :=
  dispatcher.runUntil (fun _ => false) (dispatcher.now + milliseconds)

def patience : Nat := 60000

def await (dispatcher : Dispatcher) (id : RequestId) : Dispatcher :=
  dispatcher.runUntil (fun state => (state.result? id).isSome) (dispatcher.now + patience)

end Dispatcher

end InferenceStore
