import InferenceStore.Proofs.Encoding.Layout

/-
Encodings that are read and written again. What is written of a tensor that was read is what stood
there. Of a model or a script it is the newest version, with the device in the one spelling that is
written, so it stands in front of what was read exactly if that had both. In any case it is read as
the same entity again, and writing that one changes nothing any more.
-/

namespace InferenceStore

open Outcome

namespace Encoding

variable {data rest : Bytes}

/-! ### Version and device -/

def Versioned (version : Nat) (data : Bytes) : Prop :=
  ∃ rest, readWord 4 data = .ok (version, rest)

/-- The text behind so many bytes is the one that is written for the device. -/
def Spelled (offset : Nat) (device : Device) (data : Bytes) : Prop :=
  ∃ rest, readText (data.drop offset) = .ok (device.text, rest)

/-- The device of a model stands behind a version and a backend. -/
def modelDeviceOffset : Nat := 5

def scriptDeviceOffset : Nat := 4

theorem versioned_iff {version stamped : Nat} (small : stamped < Bytes.fieldLimit 4) :
    Versioned version (Bytes.ofWord 4 stamped ++ rest) ↔ version = stamped := by
  rw [Versioned, reads_word small rest]
  constructor
  · rintro ⟨_, ⟨⟩⟩
    rfl
  · rintro rfl
    exact ⟨rest, rfl⟩

theorem spelled_iff {front : Bytes} {offset : Nat} {text : String} {device : Device}
    (passed : front.length = offset) (short : Short text) :
    Spelled offset device (front ++ (writeText text ++ rest)) ↔ text = device.text := by
  rw [Spelled, ← passed, List.drop_left, reads_text short rest]
  constructor
  · rintro ⟨_, same⟩
    cases same
    rfl
  · rintro rfl
    exact ⟨rest, rfl⟩

/-! ### Tensors -/

theorem prefix_of_readTensor {tensor : Tensor} (read : readTensor data = .ok tensor) :
    writeTensor tensor <+: data := by
  obtain ⟨_, _, rest, rfl⟩ := parts_of_readTensor read
  exact List.prefix_append ..

theorem readTensor_again {tensor : Tensor} (read : readTensor data = .ok tensor) :
    readTensor (writeTensor tensor) = .ok tensor := by
  obtain ⟨ranked, sized, _⟩ := parts_of_readTensor read
  have again := readTensor_writeTensor [] ranked sized
  rwa [List.append_nil] at again

/-! ### Models -/

section Models

variable {definition : ModelDefinition} {blob : Bytes}

theorem versioned_modelLayout {version stamped : Nat} {text : String}
    (small : stamped < Bytes.fieldLimit 4) :
    Versioned version (modelLayout stamped text definition blob ++ rest) ↔ version = stamped := by
  simp only [modelLayout, List.append_assoc]
  exact versioned_iff small

theorem spelled_modelLayout {version : Nat} {text : String} {device : Device}
    (short : Short text) :
    Spelled modelDeviceOffset device (modelLayout version text definition blob ++ rest) ↔
      text = device.text := by
  simp only [modelLayout, List.append_assoc]
  rw [← List.append_assoc]
  exact spelled_iff rfl short

theorem prefix_iff_of_readModel (read : readModel data = .ok (definition, blob)) :
    writeModel definition blob <+: data ↔
      Versioned modelVersion data ∧ Spelled modelDeviceOffset definition.device data := by
  obtain ⟨storable, _, version, text, rest, _, accepted, ⟨short, _⟩, rfl⟩ := parts_of_readModel read
  constructor
  · rintro ⟨others, same⟩
    rw [← same, writeModel_eq]
    exact ⟨(versioned_modelLayout (by decide)).mpr rfl,
      (spelled_modelLayout (short_device storable.device)).mpr rfl⟩
  · rintro ⟨versioned, spelled⟩
    have small : version < Bytes.fieldLimit 4 := Nat.lt_of_le_of_lt accepted (by decide)
    obtain rfl := (versioned_modelLayout small).mp versioned
    obtain rfl := (spelled_modelLayout short).mp spelled
    exact ⟨rest, rfl⟩

end Models

/-! ### Scripts -/

section Scripts

variable {definition : ScriptDefinition}

theorem versioned_scriptLayout {version stamped : Nat} {text : String}
    (small : stamped < Bytes.fieldLimit 4) :
    Versioned version (scriptLayout stamped text definition ++ rest) ↔ version = stamped := by
  simp only [scriptLayout, List.append_assoc]
  exact versioned_iff small

theorem spelled_scriptLayout {version : Nat} {text : String} {device : Device}
    (short : Short text) :
    Spelled scriptDeviceOffset device (scriptLayout version text definition ++ rest) ↔
      text = device.text := by
  simp only [scriptLayout, List.append_assoc]
  exact spelled_iff rfl short

/-- Without a list of entry points the encoding is of the first version. -/
theorem prefix_iff_of_readScript {entryPoints : List String}
    (read : readScript data = .ok definition)
    (listed : ∀ names ∈ definition.entryPoints, names = entryPoints) :
    writeScript definition.device definition.tag entryPoints definition.source <+: data ↔
      Versioned scriptVersion data ∧ Spelled scriptDeviceOffset definition.device data := by
  obtain ⟨_, _, _, version, text, rest, _, accepted, oldest, ⟨short, known⟩, rfl⟩ :=
    parts_of_readScript read
  constructor
  · rintro ⟨others, same⟩
    have numbered := Device.numbered_of_text known
    rw [← same, writeScript_eq]
    exact ⟨(versioned_scriptLayout (by decide)).mpr rfl,
      (spelled_scriptLayout (short_device numbered)).mpr rfl⟩
  · rintro ⟨versioned, spelled⟩
    have small : version < Bytes.fieldLimit 4 := Nat.lt_of_le_of_lt accepted (by decide)
    obtain rfl := (versioned_scriptLayout small).mp versioned
    obtain rfl := (spelled_scriptLayout short).mp spelled
    obtain ⟨device, tag, declared, source⟩ := definition
    cases declared with
    | none => cases oldest.mp rfl
    | some names =>
        obtain rfl := listed names rfl
        exact ⟨rest, rfl⟩

end Scripts

end Encoding

open Encoding

/-! ### Reading again -/

variable {registry : BackendRegistry} {config : Config} {id : InstanceId} {key : String}
  {data : Bytes}

namespace Model

variable {model : Model}

/-- What is written of the model that an encoding holds. -/
def rewritten (registry : BackendRegistry) (config : Config) (id : InstanceId) (key : String)
    (data : Bytes) : Outcome Bytes := do
  let model ← ofStored registry config id key data
  pure (writeModel model.definition model.blob)

theorem parts_of_stored (stored : ofStored registry config id key data = .ok model) :
    readModel data = .ok (model.definition, model.blob) ∧ model.Loaded ∧ model.key = key ∧
      ∃ registration, registry.get model.definition.backend = .ok registration ∧
        registration.number = model.registration ∧
        registration.backend.loadModel model.blob (model.definition.loadOptions config) =
          .ok model.handle := by
  obtain ⟨⟨definition, blob⟩, read, loaded⟩ := bind_eq_ok.mp stored
  obtain ⟨registration, handle, served, accepted, rfl⟩ := load_eq_ok_iff.mp loaded
  exact ⟨read, ⟨_, _, _, _, _, _, loaded⟩, rfl, registration, served, rfl, accepted⟩

theorem ofStored_again (stored : ofStored registry config id key data = .ok model)
    (other : InstanceId) :
    ofStored registry config other key (writeModel model.definition model.blob) =
      .ok { model with id := other } := by
  obtain ⟨read, loaded, rfl, registration, served, numbered, accepted⟩ := parts_of_stored stored
  obtain ⟨storable, sized, _⟩ := parts_of_readModel read
  rw [ofStored_writeModel loaded storable sized served accepted rfl rfl, numbered]

end Model

namespace Script

variable {script : Script}

def rewritten (registry : BackendRegistry) (id : InstanceId) (key : String) (data : Bytes) :
    Outcome Bytes := do
  let script ← ofStored registry id key data
  pure (writeScript script.device script.tag script.entryPoints script.source)

theorem parts_of_stored (stored : ofStored registry id key data = .ok script) :
    (∃ declared, (∀ names ∈ declared, names = script.entryPoints) ∧
      readScript data = .ok ⟨script.device, script.tag, declared, script.source⟩) ∧
      script.Loaded ∧ script.key = key ∧
      ∃ registration, registry.get scriptBackend = .ok registration ∧
        registration.backend.loadScript script.source script.device = .ok script.handle := by
  obtain ⟨⟨device, tag, declared, source⟩, read, loaded⟩ := bind_eq_ok.mp stored
  obtain ⟨registration, handle, entryPoints, served, accepted, resolved, rfl⟩ :=
    load_eq_ok_iff.mp loaded
  refine ⟨⟨declared, ?_, read⟩, ⟨_, _, _, _, loaded⟩, rfl, registration, served, accepted⟩
  rintro names rfl
  exact (resolve_some_eq_ok_iff.mp resolved).1

/-- The first version lists no entry points, so those that the backend finds have to fit. -/
theorem storable_of_stored (stored : ofStored registry id key data = .ok script)
    (fits : Versioned 1 data → Listable script.entryPoints) : StorableScript script := by
  obtain ⟨⟨declared, listed, read⟩, _⟩ := parts_of_stored stored
  obtain ⟨tag, source, listable, version, text, rest, _, _, oldest, ⟨_, known⟩, rfl⟩ :=
    parts_of_readScript read
  refine ⟨Device.numbered_of_text known, tag, ?_, source⟩
  cases declared with
  | none =>
      obtain rfl := oldest.mp rfl
      exact fits ((versioned_scriptLayout (by decide)).mpr rfl)
  | some names =>
      obtain rfl := listed names rfl
      exact listable _ rfl

theorem ofStored_again (stored : ofStored registry id key data = .ok script)
    (fits : Versioned 1 data → Listable script.entryPoints) (other : InstanceId) :
    ofStored registry other key
        (writeScript script.device script.tag script.entryPoints script.source) =
      .ok { script with id := other } := by
  have storable := storable_of_stored stored fits
  obtain ⟨_, loaded, rfl, registration, served, accepted⟩ := parts_of_stored stored
  rw [ofStored_writeScript loaded storable served accepted fun _ => Iff.rfl]

end Script

/-! ### Rewriting -/

/-- Bytes of whatever origin that are read as an entity. Those of a tensor begin with what is
written of it. Those of a model or a script do so exactly if they are of the newest version and the
device is spelled as it is written. In any version, what is written is read by the same backends as
the same entity, but for the number of the instance, and writing that one gives the same bytes. Only
a list of entry points that was not read but found has to fit in its fields. -/
theorem Encoding.rewrites_stored :
    (∀ data tensor, readTensor data = .ok tensor →
      writeTensor tensor <+: data ∧ readTensor (writeTensor tensor) = .ok tensor) ∧
    (∀ registry config id key data model,
      Model.ofStored registry config id key data = .ok model →
      (writeModel model.definition model.blob <+: data ↔
        Versioned modelVersion data ∧ Spelled modelDeviceOffset model.definition.device data) ∧
      ∀ other,
        Model.ofStored registry config other key (writeModel model.definition model.blob) =
          .ok { model with id := other } ∧
        Model.rewritten registry config other key (writeModel model.definition model.blob) =
          .ok (writeModel model.definition model.blob)) ∧
    ∀ registry id key data script,
      Script.ofStored registry id key data = .ok script →
      (writeScript script.device script.tag script.entryPoints script.source <+: data ↔
        Versioned scriptVersion data ∧ Spelled scriptDeviceOffset script.device data) ∧
      ((Versioned 1 data → Listable script.entryPoints) → ∀ other,
        Script.ofStored registry other key
            (writeScript script.device script.tag script.entryPoints script.source) =
          .ok { script with id := other } ∧
        Script.rewritten registry other key
            (writeScript script.device script.tag script.entryPoints script.source) =
          .ok (writeScript script.device script.tag script.entryPoints script.source)) := by
  refine ⟨?_, ?_, ?_⟩
  · intro data tensor read
    exact ⟨prefix_of_readTensor read, readTensor_again read⟩
  · intro registry config id key data model stored
    refine ⟨prefix_iff_of_readModel (Model.parts_of_stored stored).1, fun other => ?_⟩
    have again := Model.ofStored_again stored other
    exact ⟨again, bind_eq_ok.mpr ⟨_, again, rfl⟩⟩
  · intro registry id key data script stored
    obtain ⟨⟨declared, listed, read⟩, _⟩ := Script.parts_of_stored stored
    have stands := prefix_iff_of_readScript read listed
    refine ⟨stands, fun fits other => ?_⟩
    have again := Script.ofStored_again stored fits other
    exact ⟨again, bind_eq_ok.mpr ⟨_, again, rfl⟩⟩

namespace Sample

/-- A model in the first version for a device in small letters, with a byte behind it. -/
def oldModel : Bytes := modelLayout 1 "gpu:12" storedModel [51, 120, 50] ++ [7]

def oldScript : Bytes := scriptLayout 1 "cpu" ⟨.cpu, "", none, "none many"⟩ ++ []

theorem exists_oldModel : ∃ model,
    Model.ofStored reporting .initial 0 "pair" oldModel = .ok model := by
  have read : readModel oldModel = .ok ({ storedModel with policy := ⟨8, 2, 0⟩ }, [51, 120, 50]) :=
    rfl
  exact ⟨_, bind_eq_ok.mpr ⟨_, read, rfl⟩⟩

theorem exists_oldScript : ∃ script,
    Script.ofStored reporting 0 "calls" oldScript = .ok script ∧
      script.entryPoints = ["none", "many"] := by
  have read : readScript oldScript = .ok ⟨.cpu, "", none, "none many"⟩ := rfl
  have pieces : (Text.pieces ' ' "none many".toList).map String.ofList = ["none", "many"] := by
    decide +kernel
  exact ⟨_, bind_eq_ok.mpr ⟨_, read, rfl⟩, pieces⟩

end Sample

/-- A model and a script in the first version, with a device in small letters, are not written as
they stood there, but the same entities are read from what is written. -/
theorem Encoding.rewrites_old_encodings :
    writeTensor Sample.words <+: writeTensor Sample.words ++ [7] ∧
    (∃ model : Model,
      ¬ writeModel model.definition model.blob <+: Sample.oldModel ∧
      Model.ofStored Sample.reporting .initial 1 "pair"
        (writeModel model.definition model.blob) = .ok { model with id := 1 }) ∧
    ∃ script : Script, script.entryPoints = ["none", "many"] ∧
      ¬ writeScript script.device script.tag script.entryPoints script.source <+:
        Sample.oldScript ∧
      Script.ofStored Sample.reporting 1 "calls"
          (writeScript script.device script.tag script.entryPoints script.source) =
        .ok { script with id := 1 } := by
  obtain ⟨tensors, models, scripts⟩ := Encoding.rewrites_stored
  refine ⟨(tensors _ Sample.words rfl).1, ?_, ?_⟩
  · obtain ⟨model, stored⟩ := Sample.exists_oldModel
    obtain ⟨stands, again⟩ := models _ _ _ _ _ model stored
    have older : ¬ Versioned modelVersion Sample.oldModel :=
      (versioned_modelLayout (by decide)).not.mpr (by decide)
    exact ⟨model, fun same => older (stands.mp same).1, (again 1).1⟩
  · obtain ⟨script, stored, entryPoints⟩ := Sample.exists_oldScript
    obtain ⟨stands, again⟩ := scripts _ _ _ _ script stored
    have older : ¬ Versioned scriptVersion Sample.oldScript :=
      (versioned_scriptLayout (by decide)).not.mpr (by decide)
    have fits : Listable script.entryPoints := by
      rw [entryPoints]
      exact ⟨by decide, by decide +kernel⟩
    exact ⟨script, entryPoints, fun same => older (stands.mp same).1, (again (fun _ => fits) 1).1⟩

end InferenceStore
