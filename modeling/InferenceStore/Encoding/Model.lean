import InferenceStore.Encoding.Field
import InferenceStore.Entity.Model

/-
The stored form of a model: version, backend, device, tag, batch policy, names, blob. Version 1
had no minimum batch timeout and is read with a timeout of zero; version 2 is written.
-/

namespace InferenceStore.Encoding

def modelVersion : Nat := 2

def writePolicy (policy : BatchPolicy) : Bytes :=
  Bytes.ofWord 8 policy.batchSize ++
    Bytes.ofWord 8 policy.minBatchSize ++
    Bytes.ofWord 8 policy.minBatchTimeout

def writeModel (definition : ModelDefinition) (blob : Bytes) : Bytes :=
  Bytes.ofWord 4 modelVersion ++
    Bytes.ofWord 1 definition.backend.code ++
    writeText definition.device.text ++
    writeText definition.tag ++
    writePolicy definition.policy ++
    writeTexts definition.inputs ++
    writeTexts definition.outputs ++
    Bytes.ofWord 8 blob.length ++
    blob

def readDevice : Reader Device := fun data => do
  let (text, rest) ← readText data
  match Device.ofText? text with
  | some device => pure (device, rest)
  | none => .error (.malformed .invalidDevice)

def readPolicy (version : Nat) : Reader BatchPolicy := fun data => do
  let (batchSize, afterBatchSize) ← readWord 8 data
  let (minBatchSize, afterMinBatchSize) ← readWord 8 afterBatchSize
  if version = 1 then pure (⟨batchSize, minBatchSize, 0⟩, afterMinBatchSize)
  else
    let (minBatchTimeout, rest) ← readWord 8 afterMinBatchSize
    pure (⟨batchSize, minBatchSize, minBatchTimeout⟩, rest)

/-- Reads a definition and a blob, ready to be loaded; what follows them is ignored. -/
def readModel (data : Bytes) : Outcome (ModelDefinition × Bytes) := do
  let (version, afterVersion) ← readWord 4 data
  if version = 0 ∨ modelVersion < version then .error (.encoding (.unsupportedVersion version))
  else
    let (code, afterCode) ← readWord 1 afterVersion
    match BackendKind.ofCode? code with
    | none => .error (.encoding .unknownBackend)
    | some backend =>
        let (device, afterDevice) ← readDevice afterCode
        let (tag, afterTag) ← readText afterDevice
        let (policy, afterPolicy) ← readPolicy version afterTag
        let (inputs, afterInputs) ← readTexts afterPolicy
        let (outputs, afterOutputs) ← readTexts afterInputs
        let (length, afterLength) ← readWord 8 afterOutputs
        let (blob, _) ← readBytes length afterLength
        pure (⟨backend, device, tag, inputs, outputs, policy⟩, blob)

end InferenceStore.Encoding
