import InferenceStore.Entity.Target
import InferenceStore.Tensor.Batch

/-
Requests: one run of a model or script that waits in a run queue. Times are milliseconds of the
store's clock.
-/

namespace InferenceStore

/-- The number of a request. No two requests share one. -/
abbrev RequestId := Nat

structure Request where
  id : RequestId
  target : Target
  inputs : List Tensor
  outputCount : Nat
  deadline : Option Nat
  enqueuedAt : Nat

namespace Request

/-- Samples of the request; zero if it can never be merged with another. -/
def batchSize (request : Request) : Nat := Tensor.sharedBatchSize request.inputs

def policy (request : Request) : BatchPolicy := request.target.policy

def isExpired (request : Request) (now : Nat) : Bool :=
  match request.deadline with
  | none => false
  | some deadline => decide (deadline ≤ now)

/-- Whether the other request may be stacked into the same run as this one. -/
def canJoin (request other : Request) : Bool :=
  request.target.instanceId == other.target.instanceId &&
    0 < request.batchSize && 0 < other.batchSize &&
    request.inputs.length == other.inputs.length &&
    (request.inputs.zip other.inputs).all fun pair => pair.1.stackable pair.2

end Request

end InferenceStore
