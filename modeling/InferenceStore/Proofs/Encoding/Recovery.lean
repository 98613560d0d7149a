import InferenceStore.Backend.Probe
import InferenceStore.Engine.Manage
import InferenceStore.Proofs.Command.Runs
import InferenceStore.Proofs.Encoding.Fields
import InferenceStore.Proofs.Tensor.Buffer

/-
What comes back from a stored encoding. A tensor comes back as it was. A model or script is loaded
anew by whatever backend is there now: if that one accepts the blob or source and finds the same in
it, all that the encoding holds and all that the loading adds is as before.
-/

namespace InferenceStore

namespace Encoding

variable (rest : Bytes)

/-! ### Tensors -/

theorem readTensor_writeTensor {tensor : Tensor} (ranked : tensor.rank < Bytes.fieldLimit 4)
    (sized : tensor.data.length < wordLimit) :
    readTensor (writeTensor tensor ++ rest) = .ok tensor := by
  have version : ∀ rest, readWord 4 (Bytes.ofWord 4 tensorVersion ++ rest) = .ok (1, rest) :=
    reads_word (by decide)
  have code : ∀ rest, readWord 1 (Bytes.ofWord 1 tensor.dtype.code ++ rest) =
      .ok (tensor.dtype.code, rest) := reads_word (by cases tensor.dtype <;> decide)
  have rank : ∀ rest, readWord 4 (Bytes.ofWord 4 tensor.rank ++ rest) = .ok (tensor.rank, rest) :=
    reads_word ranked
  have shape : ∀ rest, readMany (readWord 8) tensor.rank
      (tensor.shape.flatMap (Bytes.ofWord 8) ++ rest) = .ok (tensor.shape, rest) :=
    reads_many fun dimension member =>
      reads_word (Shape.dimensions_lt tensor.elementCount?_shape dimension member)
  have length : ∀ rest, readWord 8 (Bytes.ofWord 8 tensor.data.length ++ rest) =
      .ok (tensor.data.length, rest) := reads_word sized
  have buffer : ∀ rest, readBytes tensor.data.length (tensor.data ++ rest) =
      .ok (tensor.data, rest) := reads_bytes tensor.data
  simp only [readTensor, writeTensor, List.append_assoc, version, code, rank, shape, length, buffer,
    tensor.elementCount?_shape, DType.ofCode?_code, bind, Except.bind]
  exact dif_pos tensor.fits

/-! ### Models -/

structure StorablePolicy (policy : BatchPolicy) : Prop where
  batchSize : policy.batchSize < wordLimit
  minBatchSize : policy.minBatchSize < wordLimit
  minBatchTimeout : policy.minBatchTimeout < wordLimit

/-- All numbers and lengths of a definition fit in their fields. -/
structure Storable (definition : ModelDefinition) : Prop where
  device : definition.device.Numbered
  tag : Short definition.tag
  policy : StorablePolicy definition.policy
  inputs : Listable definition.inputs
  outputs : Listable definition.outputs

theorem reads_policy {policy : BatchPolicy} (storable : StorablePolicy policy) :
    Reads (readPolicy modelVersion) policy (writePolicy policy) := by
  have word {value : Nat} (fits : value < wordLimit) :
      ∀ rest, readWord 8 (Bytes.ofWord 8 value ++ rest) = .ok (value, rest) := reads_word fits
  intro rest
  simp only [readPolicy, writePolicy, List.append_assoc, word storable.batchSize,
    word storable.minBatchSize, word storable.minBatchTimeout, bind, Except.bind, pure, Except.pure]
  rfl

theorem readModel_writeModel {definition : ModelDefinition} {blob : Bytes}
    (storable : Storable definition) (sized : blob.length < wordLimit) :
    readModel (writeModel definition blob ++ rest) = .ok (definition, blob) := by
  have version : ∀ rest, readWord 4 (Bytes.ofWord 4 modelVersion ++ rest) =
      .ok (modelVersion, rest) := reads_word (by decide)
  have code : ∀ rest, readWord 1 (Bytes.ofWord 1 definition.backend.code ++ rest) =
      .ok (definition.backend.code, rest) := reads_word (by cases definition.backend <;> decide)
  have length : ∀ rest, readWord 8 (Bytes.ofWord 8 blob.length ++ rest) =
      .ok (blob.length, rest) := reads_word sized
  simp only [readModel, writeModel, List.append_assoc, version, code, length,
    reads_device storable.device _, reads_text storable.tag _, reads_policy storable.policy _,
    reads_texts storable.inputs _, reads_texts storable.outputs _, reads_bytes blob rest,
    BackendKind.ofCode?_code, bind, Except.bind, pure, Except.pure]
  rfl

/-! ### Scripts -/

structure StorableScript (script : Script) : Prop where
  device : script.device.Numbered
  tag : Short script.tag
  entryPoints : Listable script.entryPoints
  source : Short script.source

theorem readScript_writeScript {script : Script} (storable : StorableScript script) :
    readScript
        (writeScript script.device script.tag script.entryPoints script.source ++ rest) =
      .ok ⟨script.device, script.tag, some script.entryPoints, script.source⟩ := by
  have version : ∀ rest, readWord 4 (Bytes.ofWord 4 scriptVersion ++ rest) =
      .ok (scriptVersion, rest) := reads_word (by decide)
  have entryPoints : ∀ rest, readEntryPoints scriptVersion
      (writeTexts script.entryPoints ++ rest) = .ok (some script.entryPoints, rest) := by
    intro rest
    simp only [readEntryPoints, reads_texts storable.entryPoints rest, bind, Except.bind, pure,
      Except.pure]
    rfl
  simp only [readScript, writeScript, List.append_assoc, version, entryPoints,
    reads_device storable.device _, reads_text storable.tag _, reads_text storable.source rest,
    bind, Except.bind, pure, Except.pure]
  rfl

end Encoding

/-! ### Loading again -/

open Encoding Outcome

variable {registry : BackendRegistry} {config : Config} {id : InstanceId} {key : String}

namespace Model

def ofStored (registry : BackendRegistry) (config : Config) (id : InstanceId) (key : String)
    (data : Bytes) : Outcome Model := do
  let (definition, blob) ← readModel data
  load registry config id key definition blob

/-- Some backend has loaded the model. -/
def Loaded (model : Model) : Prop :=
  ∃ registry config id key definition blob,
    load registry config id key definition blob = .ok model

variable {model : Model}

theorem load_eq_ok_iff {definition : ModelDefinition} {blob : Bytes} :
    load registry config id key definition blob = .ok model ↔
      ∃ registration handle, registry.get definition.backend = .ok registration ∧
        registration.backend.loadModel blob (definition.loadOptions config) = .ok handle ∧
        model =
          { id := id
            key := key
            definition := definition
            inputCount := sideCount definition.inputs handle.inputCount
            outputCount := sideCount definition.outputs handle.outputCount
            blob := blob
            registration := registration.number
            handle := handle } := by
  constructor
  · intro loaded
    obtain ⟨registration, served, loaded⟩ := bind_eq_ok.mp loaded
    obtain ⟨handle, accepted, loaded⟩ := bind_eq_ok.mp loaded
    cases loaded
    exact ⟨registration, handle, served, accepted, rfl⟩
  · rintro ⟨registration, handle, served, accepted, rfl⟩
    exact bind_eq_ok.mpr ⟨registration, served, bind_eq_ok.mpr ⟨handle, accepted, rfl⟩⟩

theorem Loaded.counts (loaded : model.Loaded) :
    model.inputCount = sideCount model.definition.inputs model.handle.inputCount ∧
      model.outputCount = sideCount model.definition.outputs model.handle.outputCount := by
  obtain ⟨registry, config, id, key, definition, blob, loaded⟩ := loaded
  obtain ⟨registration, handle, _, _, rfl⟩ := load_eq_ok_iff.mp loaded
  exact ⟨rfl, rfl⟩

/-- A backend that finds as many inputs and outputs in the blob as the one before gives the same
model, but for its number, its key and what runs it. -/
theorem ofStored_writeModel (loaded : model.Loaded) (storable : Storable model.definition)
    (sized : model.blob.length < wordLimit) {registration : Registration} {handle : ModelHandle}
    (served : registry.get model.definition.backend = .ok registration)
    (accepted : registration.backend.loadModel model.blob (model.definition.loadOptions config) =
      .ok handle)
    (inputs : handle.inputCount = model.handle.inputCount)
    (outputs : handle.outputCount = model.handle.outputCount) :
    ofStored registry config id key (writeModel model.definition model.blob) =
      .ok { model with
        id := id
        key := key
        registration := registration.number
        handle := handle } := by
  have read := readModel_writeModel [] storable sized
  rw [List.append_nil] at read
  refine bind_eq_ok.mpr ⟨_, read, load_eq_ok_iff.mpr ⟨registration, handle, served, accepted, ?_⟩⟩
  rw [inputs, outputs, ← loaded.counts.1, ← loaded.counts.2]

theorem restoreModel_of_stored {engine : Engine} {data : Bytes}
    (stored : ofStored engine.registry engine.config engine.nextInstance key data = .ok model) :
    engine.restoreModel key data =
      (engine.loadModel key model.definition model.blob).1.installModel key model := by
  obtain ⟨⟨definition, blob⟩, read, loaded⟩ := bind_eq_ok.mp stored
  obtain ⟨registration, handle, _, _, rfl⟩ := load_eq_ok_iff.mp loaded
  simp only [Engine.restoreModel, read, Engine.loadModel, loaded]

end Model

namespace Script

def ofStored (registry : BackendRegistry) (id : InstanceId) (key : String) (data : Bytes) :
    Outcome Script := do
  let definition ← readScript data
  load registry id key definition

def Loaded (script : Script) : Prop :=
  ∃ registry id key definition, load registry id key definition = .ok script

variable {script : Script}

theorem resolve_some_eq_ok_iff {declared functions names : List String} :
    resolveEntryPoints (some declared) functions = .ok names ↔
      declared = names ∧ ∀ name ∈ declared, name ∈ functions := by
  unfold resolveEntryPoints
  dsimp only
  split
  · rename_i missing found
    have unknown := List.find?_some found
    simp only [Bool.not_eq_true', List.contains_eq_mem, decide_eq_false_iff_not] at unknown
    constructor
    · nofun
    · rintro ⟨_, known⟩
      exact absurd (known missing (List.mem_of_find?_eq_some found)) unknown
  · rename_i unfound
    have known : ∀ name ∈ declared, name ∈ functions := by simpa using unfound
    rw [Except.ok.injEq]
    exact ⟨fun same => ⟨same, known⟩, fun same => same.1⟩

theorem mem_of_resolved {declared : Option (List String)} {functions names : List String}
    (resolved : resolveEntryPoints declared functions = .ok names) :
    ∀ name ∈ names, name ∈ functions := by
  cases declared with
  | none =>
      cases resolved
      exact fun _ member => member
  | some declared =>
      obtain ⟨rfl, known⟩ := resolve_some_eq_ok_iff.mp resolved
      exact known

theorem load_eq_ok_iff {definition : ScriptDefinition} :
    load registry id key definition = .ok script ↔
      ∃ registration handle entryPoints, registry.get scriptBackend = .ok registration ∧
        registration.backend.loadScript definition.source definition.device = .ok handle ∧
        resolveEntryPoints definition.entryPoints handle.functions = .ok entryPoints ∧
        script =
          { id := id
            key := key
            device := definition.device
            tag := definition.tag
            source := definition.source
            entryPoints := entryPoints
            handle := handle } := by
  constructor
  · intro loaded
    obtain ⟨registration, served, loaded⟩ := bind_eq_ok.mp loaded
    obtain ⟨handle, accepted, loaded⟩ := bind_eq_ok.mp loaded
    obtain ⟨entryPoints, resolved, loaded⟩ := bind_eq_ok.mp loaded
    cases loaded
    exact ⟨registration, handle, entryPoints, served, accepted, resolved, rfl⟩
  · rintro ⟨registration, handle, entryPoints, served, accepted, resolved, rfl⟩
    exact bind_eq_ok.mpr ⟨registration, served, bind_eq_ok.mpr ⟨handle, accepted,
      bind_eq_ok.mpr ⟨entryPoints, resolved, rfl⟩⟩⟩

theorem Loaded.known (loaded : script.Loaded) :
    ∀ name ∈ script.entryPoints, name ∈ script.handle.functions := by
  obtain ⟨registry, id, key, definition, loaded⟩ := loaded
  obtain ⟨registration, handle, entryPoints, _, _, resolved, rfl⟩ := load_eq_ok_iff.mp loaded
  exact mem_of_resolved resolved

theorem ofStored_writeScript (loaded : script.Loaded) (storable : StorableScript script)
    {registration : Registration} {handle : ScriptHandle}
    (served : registry.get scriptBackend = .ok registration)
    (accepted : registration.backend.loadScript script.source script.device = .ok handle)
    (same : ∀ name, name ∈ handle.functions ↔ name ∈ script.handle.functions) :
    ofStored registry id key
        (writeScript script.device script.tag script.entryPoints script.source) =
      .ok { script with id := id, key := key, handle := handle } := by
  have read := readScript_writeScript [] storable
  rw [List.append_nil] at read
  have resolved : resolveEntryPoints (some script.entryPoints) handle.functions =
      .ok script.entryPoints :=
    resolve_some_eq_ok_iff.mpr
      ⟨rfl, fun name member => (same name).mpr (loaded.known name member)⟩
  exact bind_eq_ok.mpr ⟨_, read,
    load_eq_ok_iff.mpr ⟨registration, handle, _, served, accepted, resolved, rfl⟩⟩

theorem restoreScript_of_stored {engine : Engine} {data : Bytes}
    (stored : ofStored engine.registry engine.nextInstance key data = .ok script) :
    engine.restoreScript key data =
      (engine.loadScript key
        ⟨script.device, script.tag, some script.entryPoints, script.source⟩).1.installScript
          key script := by
  obtain ⟨definition, read, loaded⟩ := bind_eq_ok.mp stored
  obtain ⟨registration, handle, entryPoints, _, _, _, rfl⟩ := load_eq_ok_iff.mp loaded
  simp only [Engine.restoreScript, read, Engine.loadScript, loaded]

end Script

/-! ### Round trips -/

/-- What is stored comes back: a tensor as it was, a model as the same definition, blob and counts
from any backend that accepts the blob and describes it as before, and a script as the same device,
tag, source and entry points from any that finds the same functions. A buffer in memory has a
length that a word can hold. -/
theorem Encoding.recovers_stored :
    (∀ tensor : Tensor, tensor.rank < Bytes.fieldLimit 4 → tensor.data.length < wordLimit →
      readTensor (writeTensor tensor) = .ok tensor) ∧
    (∀ model : Model, model.Loaded → Storable model.definition → model.blob.length < wordLimit →
      ∀ registry config id key registration handle,
        registry.get model.definition.backend = .ok registration →
        registration.backend.loadModel model.blob (model.definition.loadOptions config) =
          .ok handle →
        handle.inputCount = model.handle.inputCount →
        handle.outputCount = model.handle.outputCount →
        Model.ofStored registry config id key (writeModel model.definition model.blob) =
          .ok { model with
            id := id
            key := key
            registration := registration.number
            handle := handle }) ∧
    ∀ script : Script, script.Loaded → StorableScript script →
      ∀ registry id key registration handle,
        registry.get scriptBackend = .ok registration →
        registration.backend.loadScript script.source script.device = .ok handle →
        (∀ name, name ∈ handle.functions ↔ name ∈ script.handle.functions) →
        Script.ofStored registry id key
            (writeScript script.device script.tag script.entryPoints script.source) =
          .ok { script with id := id, key := key, handle := handle } := by
  refine ⟨fun tensor ranked sized => ?_, ?_, ?_⟩
  · have read := readTensor_writeTensor [] ranked sized
    rwa [List.append_nil] at read
  · intro model loaded storable sized registry config id key registration handle served accepted
      inputs outputs
    exact Model.ofStored_writeModel loaded storable sized served accepted inputs outputs
  · intro script loaded storable registry id key registration handle served accepted same
    exact Script.ofStored_writeScript loaded storable served accepted same

namespace Sample

def words : Tensor := ⟨.string, [2, 1], [97, 0, 0], by decide⟩

/-- A backend that reports what it was told. -/
def reporting : BackendRegistry := BackendRegistry.empty.register (Probe.backend .torch)

def storedModel : ModelDefinition :=
  ⟨.torch, ⟨.gpu, some 12⟩, "é", [], ["left", "right"], ⟨8, 2, 40⟩⟩

def storedScript : ScriptDefinition := ⟨.cpu, "", some ["many"], "none many"⟩

end Sample

/-- Strings, a model for a numbered device with a tag outside ASCII, and a script come back. -/
theorem Encoding.recovers_words_model_script :
    readTensor (writeTensor Sample.words) = .ok Sample.words ∧
    (∃ model copy : Model,
      Model.load Sample.reporting .initial 0 "pair" Sample.storedModel [51, 120, 50] = .ok model ∧
      Model.ofStored Sample.reporting .initial 1 "copy"
        (writeModel model.definition model.blob) = .ok copy ∧
      copy.definition = Sample.storedModel ∧ copy.inputCount = 3) ∧
    ∃ script copy : Script,
      Script.load Sample.reporting 0 "calls" Sample.storedScript = .ok script ∧
      Script.ofStored Sample.reporting 1 "copy"
        (writeScript script.device script.tag script.entryPoints script.source) = .ok copy ∧
      copy.entryPoints = ["many"] := by
  obtain ⟨tensors, models, scripts⟩ := Encoding.recovers_stored
  refine ⟨tensors _ (by decide) (by decide), ?_, ?_⟩
  · have loaded : Model.load Sample.reporting .initial 0 "pair" Sample.storedModel [51, 120, 50] =
        .ok
          { id := 0
            key := "pair"
            definition := Sample.storedModel
            inputCount := 3
            outputCount := 2
            blob := [51, 120, 50]
            registration := 0
            handle := ⟨3, 2, Except.ok⟩ } := rfl
    have numbered : Device.Numbered ⟨.gpu, some 12⟩ := by
      rintro index same
      cases same
      decide
    have storable : Storable Sample.storedModel :=
      ⟨numbered, by decide +kernel, ⟨by decide, by decide, by decide⟩, ⟨by decide, nofun⟩,
        ⟨by decide, by decide +kernel⟩⟩
    exact ⟨_, _, loaded, models _ ⟨_, _, _, _, _, _, loaded⟩ storable (by decide) Sample.reporting
      .initial 1 "copy" ⟨0, Probe.backend .torch⟩ ⟨3, 2, Except.ok⟩ rfl rfl rfl rfl, rfl, rfl⟩
  · have found : (Probe.backend .torch).loadScript "none many" .cpu =
        .ok ⟨["none", "many"], Probe.runFunction⟩ := by
      have pieces : (Text.pieces ' ' "none many".toList).map String.ofList = ["none", "many"] := by
        decide +kernel
      rw [← pieces]
      rfl
    have loaded : Script.load Sample.reporting 0 "calls" Sample.storedScript =
        .ok
          { id := 0
            key := "calls"
            device := .cpu
            tag := ""
            source := "none many"
            entryPoints := ["many"]
            handle := ⟨["none", "many"], Probe.runFunction⟩ } :=
      Script.load_eq_ok_iff.mpr ⟨⟨0, Probe.backend .torch⟩, _, _, rfl, found, rfl, rfl⟩
    exact ⟨_, _, loaded, scripts _ ⟨_, _, _, _, loaded⟩
      ⟨nofun, by decide +kernel, ⟨by decide, by decide +kernel⟩, by decide +kernel⟩
      Sample.reporting 1 "copy" ⟨0, Probe.backend .torch⟩ _ rfl found fun _ => Iff.rfl, rfl⟩

end InferenceStore
