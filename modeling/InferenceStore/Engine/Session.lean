import InferenceStore.Engine.Execution
import InferenceStore.Engine.Manage

/-
Commands and the clients that wait for them. A command runs at once up to its first wait. Then
workers and clients take turns: all workers that can act do; then every client whose result is
there goes on, in order; then the next backend call returns; and when nothing else can happen
the clock moves on.
-/

namespace InferenceStore

open Command

namespace Engine

def immediate (step : Engine × Outcome Reply) : Engine × Progress :=
  (step.1, .finished (.ofOutcome step.2))

def answer (engine : Engine) (outcome : Outcome Reply) : Engine × Progress :=
  (engine, .finished (.ofOutcome outcome))

def startParsed (engine : Engine) (parsed : Outcome Dag) : Engine × Progress :=
  match parsed with
  | .error cause => (engine, .finished (.error cause))
  | .ok dag => engine.start dag

def begin (engine : Engine) (arguments : List Bytes) : Engine × Progress :=
  let keyspace := engine.keyspace
  match Command.name arguments with
  | "AI.TENSORSET" => immediate (engine.setTensor arguments)
  | "AI.TENSORGET" => engine.answer (engine.getTensor arguments)
  | "AI.MODELSTORE" => immediate (engine.storeModel "AI.MODELSTORE" arguments)
  | "AI.MODELSET" => immediate (engine.storeModel "AI.MODELSET" arguments)
  | "AI.MODELGET" => engine.answer (engine.getModel arguments)
  | "AI.MODELDEL" => immediate (engine.deleteModel arguments)
  | "AI._MODELSCAN" => engine.answer (.ok engine.scanModels)
  | "AI.SCRIPTSTORE" => immediate (engine.storeScript (ScriptStore.ofStore arguments))
  | "AI.SCRIPTSET" => immediate (engine.storeScript (ScriptStore.ofSet arguments))
  | "AI.SCRIPTGET" => engine.answer (engine.getScript arguments)
  | "AI.SCRIPTDEL" => immediate (engine.deleteScript arguments)
  | "AI._SCRIPTSCAN" => engine.answer (.ok engine.scanScripts)
  | "AI.MODELEXECUTE" =>
      engine.startParsed
        ((ModelRun.ofExecute keyspace arguments).map fun run => Dag.single (.model run))
  | "AI.MODELRUN" =>
      engine.startParsed
        ((ModelRun.ofRun keyspace arguments).map fun run => Dag.single (.model run))
  | "AI.SCRIPTEXECUTE" =>
      engine.startParsed
        ((ScriptRun.ofExecute keyspace arguments).map fun run => Dag.single (.script run))
  | "AI.SCRIPTRUN" =>
      engine.startParsed
        ((ScriptRun.ofRun keyspace arguments).map fun run => Dag.single (.script run))
  | "AI.INFO" => immediate (engine.info arguments)
  | "AI.CONFIG" => immediate (engine.configure arguments)
  | name =>
      match DagFlavor.ofName? name with
      | some flavor => engine.startParsed (Dag.ofArguments flavor keyspace arguments)
      | none => engine.answer (.error (.malformed (.unknownCommand name)))

end Engine

inductive Session where
  | answered (reply : Reply)
  | waiting (execution : Execution) (giveUpAt : Nat)
  /-- Has stopped waiting. What it has queued is still there. -/
  | gaveUp

namespace Session

def ofProgress (giveUpAt : Nat) : Progress → Session
  | .finished reply => .answered reply
  | .waiting execution => .waiting execution giveUpAt

def isOver : Session → Bool
  | .waiting _ _ => false
  | _ => true

def moments : Session → List Nat
  | .waiting execution giveUpAt => giveUpAt :: execution.deadline.toList
  | _ => []

def isReady (dispatcher : Dispatcher) : Session → Bool
  | .waiting execution _ => (dispatcher.result? execution.request).isSome
  | _ => false

def opsLeft : Session → Nat
  | .waiting execution _ => execution.rest.length + 1
  | _ => 0

def reply? : Session → Option Reply
  | .answered reply => some reply
  | _ => none

end Session

namespace Engine

/-- One client acts: it goes on if its result is there, replies that time is up if its deadline
has passed, and gives up if its patience has. -/
def pollOne (engine : Engine) (session : Session) : Engine × Session :=
  match session with
  | .waiting execution giveUpAt =>
      match engine.dispatcher.result? execution.request with
      | some result =>
          let (next, progress) := engine.resume execution result
          (next, .ofProgress giveUpAt progress)
      | none =>
          if execution.deadline.any (· ≤ engine.dispatcher.now) then
            (engine, .answered .timedOut)
          else if giveUpAt ≤ engine.dispatcher.now then (engine, .gaveUp)
          else (engine, session)
  | _ => (engine, session)

def poll (engine : Engine) : List Session → Engine × List Session
  | [] => (engine, [])
  | session :: rest =>
      let (next, polled) := engine.pollOne session
      let (final, others) := next.poll rest
      (final, polled :: others)

/-- Whether somebody can act without a backend or the clock. -/
def isBusy (engine : Engine) (sessions : List Session) : Bool :=
  !engine.dispatcher.turns.isEmpty || sessions.any (Session.isReady engine.dispatcher)

def runRounds : Nat → Engine → List Session → Engine × List Session
  | 0, engine, sessions => (engine, sessions)
  | rounds + 1, engine, sessions =>
      let settled := { engine with dispatcher := engine.dispatcher.takeTurns }
      let (polled, waiting) := settled.poll sessions
      if waiting.all Session.isOver then (polled, waiting)
      else if polled.isBusy waiting then runRounds rounds polled waiting
      else
        match polled.dispatcher.nextReturn? with
        | some returned => runRounds rounds { polled with dispatcher := returned } waiting
        | none =>
            let limit := (waiting.flatMap Session.moments).min?.getD polled.dispatcher.now
            let ticked := { polled with dispatcher := polled.dispatcher.tick limit }
            let (final, others) := ticked.poll waiting
            if others.all Session.isOver then (final, others)
            else runRounds rounds final others

def beginAll (engine : Engine) (patience : Nat) : List (List Bytes) → Engine × List Session
  | [] => (engine, [])
  | arguments :: rest =>
      let (begun, progress) := engine.begin arguments
      let giveUpAt := engine.dispatcher.now + patience
      let (final, others) := begun.beginAll patience rest
      (final, .ofProgress giveUpAt progress :: others)

/-- Runs commands side by side until each has replied or its client has given up, which it does
after `patience` milliseconds. A client that gave up has no reply. Every round lets a client
act, returns a call, or moves the clock. -/
def executeAll (engine : Engine) (patience : Nat) (commands : List (List Bytes)) :
    Engine × List (Option Reply) :=
  let (begun, sessions) := engine.beginAll patience commands
  if sessions.all Session.isOver then (begun, sessions.map Session.reply?)
  else
    let rounds :=
      patience + begun.dispatcher.load + 4 * sizeSum (sessions.map Session.opsLeft) + 4
    let (final, ended) := runRounds rounds begun sessions
    (final, ended.map Session.reply?)

def execute (engine : Engine) (patience : Nat) (arguments : List Bytes) :
    Engine × Option Reply :=
  let (final, replies) := engine.executeAll patience [arguments]
  (final, replies.head?.join)

def sleep (engine : Engine) (milliseconds : Nat) : Engine :=
  { engine with dispatcher := engine.dispatcher.sleep milliseconds }

end Engine

end InferenceStore
