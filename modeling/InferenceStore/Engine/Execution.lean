import InferenceStore.Dag.Grammar
import InferenceStore.Engine.State

/-
Running graphs. A graph runs its operations in order until one has to wait for a backend; there
it is suspended, and goes on with the result. Everything it needs is in the suspended execution:
the operations left, the local names, the replies so far. It writes to the keyspace in one step
after its last operation, and not at all if it gives up.
-/

namespace InferenceStore

open Command

inductive OpStep where
  | done (context : Context) (reply : Reply)
  | request (target : Target) (inputs : List Tensor) (outputs : List String)

/-- A run needs all its inputs; without one of them it is not available. -/
def runStep (context : Context) (target : Target) (inputs outputs : List String) : OpStep :=
  match context.collect? inputs with
  | none => .done context .notAvailable
  | some tensors => .request target tensors outputs

def Op.step (op : Op) (context : Context) : OpStep :=
  match op with
  | .tensorSet set => .done (context.insert set.key set.tensor) .okay
  | .tensorGet get =>
      match context.get? get.key with
      | some tensor => .done context (get.format.reply tensor)
      | none => .done context .notAvailable
  | .model run => runStep context (.model run.model) run.inputs run.outputs
  | .script run => runStep context (.script run.invocation) run.inputs run.outputs

structure Execution where
  dag : Dag
  deadline : Option Nat
  context : Context
  replies : List Reply
  request : RequestId
  outputs : List String
  rest : List Op

inductive Progress where
  | finished (reply : Reply)
  | waiting (execution : Execution)

def loadContext (keyspace : Keyspace) (context : Context) : List String → Outcome Context
  | [] => .ok context
  | name :: rest =>
      match keyspace.getTensor name with
      | .error cause => .error cause
      | .ok tensor => loadContext keyspace (context.insert name tensor) rest

def persist (context : Context) (keyspace : Keyspace) : List String → Keyspace × List Error
  | [] => (keyspace, [])
  | name :: rest =>
      let written :=
        match context.get? name with
        | some tensor => keyspace.putTensor name tensor
        | none => .error (.dag .persistUnbound)
      match written with
      | .ok next => persist context next rest
      | .error cause =>
          let (final, causes) := persist context keyspace rest
          (final, cause :: causes)

namespace Dag

/-- The reply of a graph whose operations and names to persist ended like this. A single
operation replies with its own result, or with the first failure to persist it. -/
def reply (dag : Dag) (replies : List Reply) (failures : List Error) : Reply :=
  if dag.singleOp then
    let own := replies.getLast?.getD .notAvailable
    if own.isError then own
    else
      match failures with
      | [] => own
      | cause :: _ => .error cause
  else .array (replies ++ failures.map .error)

end Dag

namespace Engine

def conclude (engine : Engine) (dag : Dag) (context : Context) (replies : List Reply) :
    Engine × Progress :=
  let (keyspace, failures) := persist context engine.keyspace dag.persist
  ({ engine with keyspace := keyspace }, .finished (dag.reply replies failures))

def runOps (engine : Engine) (dag : Dag) (deadline : Option Nat) (context : Context)
    (replies : List Reply) : List Op → Engine × Progress
  | [] => engine.conclude dag context replies
  | op :: rest =>
      match op.step context with
      | .done bound reply => runOps engine dag deadline bound (replies ++ [reply]) rest
      | .request target inputs outputs =>
          let (submitted, id) := engine.submit target inputs outputs.length deadline
          (submitted,
            .waiting
              { dag := dag
                deadline := deadline
                context := context
                replies := replies
                request := id
                outputs := outputs
                rest := rest })

def start (engine : Engine) (dag : Dag) : Engine × Progress :=
  match if engine.clusterMode then Slot.common dag.keys else .ok none with
  | .error cause => (engine, .finished (.error cause))
  | .ok _ =>
      match loadContext engine.keyspace .empty dag.load with
      | .error cause => (engine, .finished (.error cause))
      | .ok context =>
          let deadline := dag.timeout.map fun timeout => engine.dispatcher.now + timeout
          engine.runOps dag deadline context [] dag.ops

/-- Goes on with the result that an execution waited for. A request that expired ends the whole
graph; any other failure is the reply of its operation alone. -/
def resume (engine : Engine) (execution : Execution) (result : Outcome (List Tensor)) :
    Engine × Progress :=
  let goOn := fun context reply =>
    engine.runOps execution.dag execution.deadline context (execution.replies ++ [reply])
      execution.rest
  match result with
  | .ok tensors => goOn (execution.context.insertAll execution.outputs tensors) .okay
  | .error .timedOut => (engine, .finished .timedOut)
  | .error cause => goOn execution.context (.error cause)

end Engine

end InferenceStore
