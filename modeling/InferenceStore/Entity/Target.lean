import InferenceStore.Entity.Model
import InferenceStore.Entity.Script

/-
What a run executes: a model, or a function of a script bound to its call arguments. A run
hands out as many tensors as were asked for, and fails when there are fewer.
-/

namespace InferenceStore

structure ScriptInvocation where
  script : Script
  function : String
  listSizes : List Nat
  keys : List String
  arguments : List String

inductive Target where
  | model (model : Model)
  | script (invocation : ScriptInvocation)

namespace Target

def key : Target → String
  | .model m => m.key
  | .script s => s.script.key

def device : Target → Device
  | .model m => m.definition.device
  | .script s => s.script.device

def instanceId : Target → InstanceId
  | .model m => m.id
  | .script s => s.script.id

/-- Script calls are never merged. -/
def policy : Target → BatchPolicy
  | .model m => m.definition.policy
  | .script _ => .disabled

def samples (target : Target) (outputs : List Tensor) : Nat :=
  match target with
  | .model _ => (outputs.head?.map Tensor.batchSize).getD 0
  | .script _ => 1

def tooFewOutputs : Target → Error
  | .model _ => .backend .modelOutputs
  | .script _ => .backend .scriptOutputs

def backendRun (target : Target) (inputs : List Tensor) : Outcome (List Tensor) :=
  match target with
  | .model m => m.handle.run inputs
  | .script s => s.script.call s.function ⟨inputs, s.listSizes, s.keys, s.arguments⟩

/-- Runs the target for `outputCount` tensors; what the backend returns beyond is dropped. -/
def invoke (target : Target) (inputs : List Tensor) (outputCount : Nat) :
    Outcome (List Tensor) := do
  let outputs ← target.backendRun inputs
  if outputs.length < outputCount then .error target.tooFewOutputs
  else pure (outputs.take outputCount)

def record (target : Target) (ledger : Ledger) (nanoseconds : Nat)
    (result : Outcome (List Tensor)) : Ledger :=
  let counters := ledger.counters target.instanceId
  let counted :=
    match result with
    | .ok outputs => counters.countSuccess nanoseconds (target.samples outputs)
    | .error _ => counters.countError
  ledger.set target.instanceId counted

end Target

end InferenceStore
