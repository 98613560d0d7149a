import InferenceStore.Backend.Basic
import InferenceStore.Config
import InferenceStore.Statistics

/-
Models. A definition is what a client writes about a model; loading a blob through the backend
that the definition names gives an instance. Instances are told apart by their numbers, and
only runs of one instance are ever merged.
-/

namespace InferenceStore

/-- How concurrent runs of one model are merged. A batch size of zero disables it. -/
structure BatchPolicy where
  batchSize : Nat
  minBatchSize : Nat
  /-- Milliseconds that a group below the minimum waits; zero is for ever. -/
  minBatchTimeout : Nat
  deriving DecidableEq, Repr

def BatchPolicy.disabled : BatchPolicy := ⟨0, 0, 0⟩

def BatchPolicy.isEnabled (policy : BatchPolicy) : Bool := 0 < policy.batchSize

structure ModelDefinition where
  backend : BackendKind
  device : Device
  tag : String
  inputs : List String
  outputs : List String
  policy : BatchPolicy
  deriving DecidableEq, Repr

def ModelDefinition.loadOptions (definition : ModelDefinition) (config : Config) : LoadOptions :=
  { device := definition.device
    inputs := definition.inputs
    outputs := definition.outputs
    batchSize := definition.policy.batchSize
    intraOpParallelism := config.intraOpParallelism
    interOpParallelism := config.interOpParallelism
    timeout := config.backendTimeout }

structure Model where
  id : InstanceId
  /-- The key the model was loaded for. -/
  key : String
  definition : ModelDefinition
  inputCount : Nat
  outputCount : Nat
  blob : Bytes
  registration : Nat
  handle : ModelHandle

namespace Model

/-- Names in the definition, or else the count that the backend finds in the blob. -/
def sideCount (names : List String) (found : Nat) : Nat :=
  if names.isEmpty then found else names.length

def load (registry : BackendRegistry) (config : Config) (id : InstanceId) (key : String)
    (definition : ModelDefinition) (blob : Bytes) : Outcome Model := do
  let registration ← registry.get definition.backend
  let handle ← registration.backend.loadModel blob (definition.loadOptions config)
  pure
    { id := id
      key := key
      definition := definition
      inputCount := sideCount definition.inputs handle.inputCount
      outputCount := sideCount definition.outputs handle.outputCount
      blob := blob
      registration := registration.number
      handle := handle }

def info (model : Model) : RunInfo :=
  { key := model.key
    kind := .model
    backend := model.definition.backend
    device := model.definition.device
    tag := model.definition.tag }

end Model

end InferenceStore
