import InferenceStore.Backend.Arithmetic
import InferenceStore.Backend.Probe
import InferenceStore.Engine.Session
import InferenceStore.Proofs.Queue.Step

/-
Histories of a whole store. A service is a store with its clients. What happens in one step is a
command up to its first wait, a client going on with its result, a client ending its wait, a step
of a worker or of the clock, or something that the host does on its own. A run takes permitted
steps in any order and any number, so what holds of every run holds however clients, workers and
the clock interleave. It starts from any store, whatever that store holds, and without clients.
-/

namespace InferenceStore

structure Service where
  engine : Engine
  clients : List Session

inductive HostAction where
  | register (backend : Backend)
  | restoreModel (key : String) (data : Bytes)
  | restoreScript (key : String) (data : Bytes)
  | restoreTensor (key : String) (data : Bytes)
  | place (key : String) (data : Bytes)
  /-- The value of a key, the same instance, is set at another key too. -/
  | link (key other : String)
  | remove (key : String)

inductive Action where
  /-- A new client sends a command and will wait for it until a moment. -/
  | command (arguments : List Bytes) (giveUpAt : Nat)
  | resume (client : Nat)
  /-- A client replies that its time is up; the result may have come just now. -/
  | expire (client : Nat)
  | abandon (client : Nat)
  | work (event : Event)
  /-- Another order of whose turn is next, which no step depends on. -/
  | reorder (turns calls : List WorkerId)
  | host (action : HostAction)

def Event.isWork : Event → Bool
  | .look _ | .returnCall _ | .wake _ | .advance _ => true
  | _ => false

namespace Engine

def link (engine : Engine) (key other : String) : Engine :=
  match engine.keyspace.get? key with
  | none => engine
  | some value => { engine with keyspace := engine.keyspace.set other value }

def byHost (engine : Engine) : HostAction → Engine
  | .register backend => engine.register backend
  | .restoreModel key data => (engine.restoreModel key data).1
  | .restoreScript key data => (engine.restoreScript key data).1
  | .restoreTensor key data => (engine.restoreTensor key data).1
  | .place key data => { engine with keyspace := engine.keyspace.set key (.foreign data) }
  | .link key other => engine.link key other
  | .remove key => { engine with keyspace := engine.keyspace.remove key }

end Engine

namespace Session

def isDue (now : Nat) : Session → Bool
  | .waiting execution _ => execution.deadline.any (· ≤ now)
  | _ => false

end Session

namespace Service

def permits (service : Service) : Action → Bool
  | .resume client =>
      (service.clients[client]?).any (Session.isReady service.engine.dispatcher)
  | .expire client => (service.clients[client]?).any (Session.isDue service.engine.dispatcher.now)
  | .abandon client => (service.clients[client]?).any fun session => !session.isOver
  | .work event => event.isWork && service.engine.dispatcher.permits event
  | _ => true

def resume (service : Service) (client : Nat) : Service :=
  match service.clients[client]? with
  | some (.waiting execution giveUpAt) =>
      match service.engine.dispatcher.result? execution.request with
      | some result =>
          let (engine, progress) := service.engine.resume execution result
          ⟨engine, service.clients.set client (.ofProgress giveUpAt progress)⟩
      | none => service
  | _ => service

def onDispatcher (service : Service) (change : Dispatcher → Dispatcher) : Service :=
  { service with
    engine := { service.engine with dispatcher := change service.engine.dispatcher } }

def after (service : Service) : Action → Service
  | .command arguments giveUpAt =>
      let (engine, progress) := service.engine.begin arguments
      ⟨engine, service.clients ++ [.ofProgress giveUpAt progress]⟩
  | .resume client => service.resume client
  | .expire client => { service with clients := service.clients.set client (.answered .timedOut) }
  | .abandon client => { service with clients := service.clients.set client .gaveUp }
  | .work event => service.onDispatcher (·.after event)
  | .reorder turns calls =>
      service.onDispatcher fun dispatcher => { dispatcher with turns := turns, calls := calls }
  | .host action => { service with engine := service.engine.byHost action }

structure Moment where
  before : Service
  action : Action

namespace Moment

def after (moment : Moment) : Service := moment.before.after moment.action

/-- The client whose command it is, or whose wait goes on or ends. -/
def client? (moment : Moment) : Option Nat :=
  match moment.action with
  | .command _ _ => some moment.before.clients.length
  | .resume client | .expire client | .abandon client => some client
  | _ => none

def IsSilent (moment : Moment) : Prop :=
  moment.after.engine.keyspace = moment.before.engine.keyspace

end Moment

abbrev History := List Moment

def History.of (history : History) (client : Nat) : History :=
  history.filter fun moment => moment.client? == some client

/-- Every service that a store comes to with clients, with the way there. -/
inductive Run (store : Engine) : History → Service → Prop
  | start : Run store [] ⟨store, []⟩
  | step {history : History} {service : Service} (run : Run store history service)
      (action : Action) (permitted : service.permits action = true) :
      Run store (history ++ [⟨service, action⟩]) (service.after action)

/-! ### Replays -/

namespace History

def extend (reached : History × Service) (action : Action) : Option (History × Service) :=
  let (history, service) := reached
  if service.permits action then some (history ++ [⟨service, action⟩], service.after action)
  else none

def replay (store : Engine) (actions : List Action) : Option (History × Service) :=
  actions.foldlM extend ([], ⟨store, []⟩)

theorem run_of_foldlM {store : Engine} {actions : List Action} {history later : History}
    {service final : Service} (run : Run store history service)
    (replayed : actions.foldlM extend (history, service) = some (later, final)) :
    Run store later final := by
  induction actions generalizing history service with
  | nil =>
      cases replayed
      exact run
  | cons action rest ih =>
      rw [List.foldlM_cons] at replayed
      obtain ⟨⟨next, state⟩, extended, onward⟩ := Option.bind_eq_some_iff.mp replayed
      simp only [extend] at extended
      split at extended
      · rename_i permitted
        cases extended
        exact ih (.step run action permitted) onward
      · cases extended

theorem prefix_of_foldlM {actions : List Action} {history later : History}
    {service final : Service}
    (replayed : actions.foldlM extend (history, service) = some (later, final)) :
    history <+: later := by
  induction actions generalizing history service with
  | nil =>
      cases replayed
      exact List.prefix_rfl
  | cons action rest ih =>
      rw [List.foldlM_cons] at replayed
      obtain ⟨⟨next, state⟩, extended, onward⟩ := Option.bind_eq_some_iff.mp replayed
      simp only [extend] at extended
      split at extended
      · cases extended
        exact (List.prefix_append history _).trans (ih onward)
      · cases extended

theorem exists_run (store : Engine) (actions : List Action) (check : History → Service → Bool)
    (passed : ((replay store actions).any fun reached => check reached.1 reached.2) = true) :
    ∃ history service, Run store history service ∧ check history service = true := by
  obtain ⟨⟨history, service⟩, reached, checked⟩ := (Option.any_eq_true ..).mp passed
  exact ⟨history, service, run_of_foldlM .start reached, checked⟩

theorem exists_fork (store : Engine) (actions left right : List Action)
    (check : History → History × Service → History × Service → Bool)
    (passed : ((replay store actions).any fun reached =>
      (left.foldlM extend reached).any fun first =>
        (right.foldlM extend reached).any fun second => check reached.1 first second) = true) :
    ∃ (history : History) (first second : History × Service), Run store first.1 first.2 ∧
      Run store second.1 second.2 ∧ history ⊆ first.1 ∧ history ⊆ second.1 ∧
        check history first second = true := by
  obtain ⟨⟨history, service⟩, reached, passed⟩ := (Option.any_eq_true ..).mp passed
  obtain ⟨first, wentLeft, passed⟩ := (Option.any_eq_true ..).mp passed
  obtain ⟨second, wentRight, checked⟩ := (Option.any_eq_true ..).mp passed
  have run := run_of_foldlM .start reached
  exact ⟨history, first, second, run_of_foldlM run wentLeft, run_of_foldlM run wentRight,
    (prefix_of_foldlM wentLeft).subset, (prefix_of_foldlM wentRight).subset, checked⟩

end History

/-! ### Actions to replay -/

namespace Sample

def send (words : List String) : Action := .command (words.map Text.encode) Dispatcher.patience

/-- Two tensors, a model that hands out its two inputs, a model that fails, and a foreign key. -/
def opening : List Action :=
  [ .host (.register (Probe.backend .torch)),
    .host (.register (Arithmetic.backend .onnx)),
    send ["AI.TENSORSET", "a", "INT8", "1", "VALUES", "1"],
    send ["AI.TENSORSET", "b", "INT8", "1", "VALUES", "2"],
    send ["AI.MODELSTORE", "pair", "TORCH", "CPU", "BLOB", "2x2"],
    send ["AI.MODELSTORE", "broken", "ONNX", "CPU", "BLOB", "fail"],
    .host (.place "host" [120]) ]

def next : Nat := 4

def turn : List Action := [.work (.look ⟨0, 0⟩), .work (.returnCall ⟨0, 0⟩), .resume next]

end Sample

end Service

end InferenceStore
