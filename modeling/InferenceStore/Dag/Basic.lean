import InferenceStore.Command.Model
import InferenceStore.Command.Script
import InferenceStore.Command.Tensor
import InferenceStore.Dag.Context

/-
Graphs of operations. The operations run in order over local names; keys to load are bound
before the first one, names to persist are written back after the last. A model or script run
on its own is a graph of one operation that loads its inputs and persists its outputs.
-/

namespace InferenceStore

open Command

inductive Op where
  | tensorSet (set : TensorSet)
  | tensorGet (get : TensorGet)
  | model (run : ModelRun)
  | script (run : ScriptRun)

namespace Op

def inputs : Op → List String
  | .tensorSet _ => []
  | .tensorGet get => [get.key]
  | .model run => run.inputs
  | .script run => run.inputs

def outputs : Op → List String
  | .tensorSet set => [set.key]
  | .tensorGet _ => []
  | .model run => run.outputs
  | .script run => run.outputs

/-- Keys of the host that are touched, other than through local names. -/
def keys : Op → List String
  | .model run => [run.model.key]
  | .script run => run.script.key :: run.keys
  | _ => []

def timeout : Op → Option Nat
  | .model run => run.timeout
  | .script run => run.timeout
  | _ => none

end Op

structure Dag where
  ops : List Op
  load : List String
  persist : List String
  routing : Option String
  timeout : Option Nat
  readOnly : Bool
  /-- Replies with the result of the operation itself, not with a list of results. -/
  singleOp : Bool

def firstOccurrences : List String → List String
  | [] => []
  | name :: rest => name :: (firstOccurrences rest).filter (· != name)

namespace Dag

def single (op : Op) : Dag :=
  { ops := [op]
    load := firstOccurrences op.inputs
    persist := firstOccurrences op.outputs
    routing := none
    timeout := op.timeout
    readOnly := false
    singleOp := true }

/-- Every key of the host that the graph touches, in the order in which slots are checked. -/
def keys (dag : Dag) : List String :=
  dag.routing.toList ++ dag.load ++ dag.persist ++ dag.ops.flatMap Op.keys

end Dag

end InferenceStore
