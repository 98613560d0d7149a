import InferenceStore.Proofs.Encoding.Rewriting

/-
Encodings of the first versions, which are still read. A model is read as if a timeout of zero stood
behind the other two numbers of its policy, whatever is behind them. A script gets all the functions
that the backend finds in its source. Either is written in the newest version from then on.
-/

namespace InferenceStore

open Outcome

namespace Encoding

/-! ### Models -/

section Models

variable {definition : ModelDefinition} {device : String}

theorem reads_named {known : Device} (names : Names device known) :
    Reads readDevice known (writeText device) := by
  intro rest
  simp only [readDevice, reads_text names.1 rest, names.2, bind, Except.bind, pure, Except.pure]

/-- A timeout of zero is the same as none. -/
theorem readPolicy_older {policy : BatchPolicy} (storable : StorablePolicy policy)
    (untimed : policy.minBatchTimeout = 0) (rest : Bytes) :
    readPolicy 1 (policyLayout 1 policy ++ rest) = .ok (policy, rest) ∧
      readPolicy 2 (policyLayout 2 policy ++ rest) = .ok (policy, rest) := by
  have word {value : Nat} (fits : value < wordLimit) :
      ∀ rest, readWord 8 (Bytes.ofWord 8 value ++ rest) = .ok (value, rest) := reads_word fits
  constructor
  · simp only [readPolicy, policyLayout, if_true, List.append_nil, List.append_assoc,
      word storable.batchSize, word storable.minBatchSize, bind, Except.bind, pure, Except.pure]
    rw [← untimed]
  · exact reads_policy storable rest

theorem readModel_older (names : Names device definition.device) (shortTag : Short definition.tag)
    (storable : StorablePolicy definition.policy) (untimed : definition.policy.minBatchTimeout = 0)
    (blob : Bytes) :
    readModel (modelLayout 1 device definition blob) =
      readModel (modelLayout 2 device definition blob) := by
  have version {stamped : Nat} (known : stamped < Bytes.fieldLimit 4) :
      ∀ rest, readWord 4 (Bytes.ofWord 4 stamped ++ rest) = .ok (stamped, rest) := reads_word known
  have known : 1 < Bytes.fieldLimit 4 ∧ 2 < Bytes.fieldLimit 4 := by decide
  have accepted : ¬ (1 = 0 ∨ modelVersion < 1) ∧ ¬ (2 = 0 ∨ modelVersion < 2) := by decide
  have code : ∀ rest, readWord 1 (Bytes.ofWord 1 definition.backend.code ++ rest) =
      .ok (definition.backend.code, rest) := reads_word (by cases definition.backend <;> decide)
  have policy (rest : Bytes) := readPolicy_older storable untimed rest
  simp only [readModel, modelLayout, List.append_assoc, version known.1, version known.2,
    if_neg accepted.1, if_neg accepted.2, code, BackendKind.ofCode?_code, reads_named names _,
    reads_text shortTag _, (policy _).1, (policy _).2, bind, Except.bind]

end Models

/-! ### Scripts -/

theorem readScript_older {definition : ScriptDefinition} {device : String}
    (names : Names device definition.device) (shortTag : Short definition.tag)
    (shortSource : Short definition.source) (unlisted : definition.entryPoints = none)
    (rest : Bytes) : readScript (scriptLayout 1 device definition ++ rest) = .ok definition := by
  obtain ⟨known, tag, entryPoints, source⟩ := definition
  cases unlisted
  have version : ∀ rest, readWord 4 (Bytes.ofWord 4 1 ++ rest) = .ok (1, rest) :=
    reads_word (by decide)
  have accepted : ¬ (1 = 0 ∨ scriptVersion < 1) := by decide
  simp only [readScript, scriptLayout, List.append_assoc, version, if_neg accepted,
    reads_named names _, reads_text shortTag _, reads_text shortSource rest, entryPointsLayout,
    List.nil_append, readEntryPoints, if_true, bind, Except.bind, pure, Except.pure]

/-! ### Versions -/

/-- Every version but those from one to the newest is refused, whatever stands behind it. -/
def RefusesUnknown {α : Type} (newest : Nat) (read : Bytes → Outcome α) : Prop :=
  ∀ version rest, version < Bytes.fieldLimit 4 → version = 0 ∨ newest < version →
    read (Bytes.ofWord 4 version ++ rest) = .error (.encoding (.unsupportedVersion version))

theorem RefusesUnknown.bind {α β : Type} {newest : Nat} {read : Bytes → Outcome α}
    (refuses : RefusesUnknown newest read) (next : α → Outcome β) :
    RefusesUnknown newest fun data => read data >>= next := by
  intro version rest small unknown
  dsimp only
  rw [refuses version rest small unknown]
  rfl

theorem readTensor_refuses : RefusesUnknown tensorVersion readTensor := by
  intro version rest small unknown
  have other : version ≠ tensorVersion := by
    rw [tensorVersion] at unknown ⊢
    omega
  simp only [readTensor, reads_word small rest, if_pos other, Bind.bind, Except.bind]

theorem readModel_refuses : RefusesUnknown modelVersion readModel := by
  intro version rest small unknown
  simp only [readModel, reads_word small rest, if_pos unknown, Bind.bind, Except.bind]

theorem readScript_refuses : RefusesUnknown scriptVersion readScript := by
  intro version rest small unknown
  simp only [readScript, reads_word small rest, if_pos unknown, Bind.bind, Except.bind]

end Encoding

open Encoding

variable {registry : BackendRegistry} {config : Config} {id : InstanceId} {key : String}

/-! ### Loading -/

namespace Model

variable {definition : ModelDefinition} {blob : Bytes}

theorem ofStored_older (numbered : definition.device.Numbered) (shortTag : Short definition.tag)
    (storable : StorablePolicy definition.policy) (untimed : definition.policy.minBatchTimeout = 0)
    (registry : BackendRegistry) (config : Config) (id : InstanceId) (key : String) (blob : Bytes) :
    ofStored registry config id key (modelLayout 1 definition.device.text definition blob) =
      ofStored registry config id key (writeModel definition blob) := by
  have names : Names definition.device.text definition.device :=
    ⟨short_device numbered, Device.ofText?_text numbered⟩
  unfold ofStored
  rw [readModel_older names shortTag storable untimed, writeModel_eq]
  rfl

theorem ofStored_eq_load (storable : Storable definition) (sized : blob.length < wordLimit)
    (registry : BackendRegistry) (config : Config) (id : InstanceId) (key : String) :
    ofStored registry config id key (writeModel definition blob) =
      load registry config id key definition blob := by
  have read := readModel_writeModel [] storable sized
  rw [List.append_nil] at read
  unfold ofStored
  rw [read]
  rfl

end Model

namespace Script

def whole (id : InstanceId) (key : String) (device : Device) (tag source : String)
    (handle : ScriptHandle) : Script :=
  { id := id
    key := key
    device := device
    tag := tag
    source := source
    entryPoints := handle.functions
    handle := handle }

theorem ofStored_older_eq_ok_iff {device : Device} {tag source : String} {script : Script}
    (numbered : device.Numbered) (shortTag : Short tag) (shortSource : Short source) :
    ofStored registry id key (scriptLayout 1 device.text ⟨device, tag, none, source⟩) =
        .ok script ↔
      ∃ registration handle, registry.get scriptBackend = .ok registration ∧
        registration.backend.loadScript source device = .ok handle ∧
        script = whole id key device tag source handle := by
  have names : Names device.text device := ⟨short_device numbered, Device.ofText?_text numbered⟩
  have read : readScript (scriptLayout 1 device.text ⟨device, tag, none, source⟩ ++ []) =
      .ok ⟨device, tag, none, source⟩ := readScript_older names shortTag shortSource rfl []
  rw [List.append_nil] at read
  unfold ofStored
  rw [read]
  constructor
  · intro loaded
    obtain ⟨registration, handle, entryPoints, served, accepted, resolved, rfl⟩ :=
      load_eq_ok_iff.mp loaded
    cases resolved
    exact ⟨registration, handle, served, accepted, rfl⟩
  · rintro ⟨registration, handle, served, accepted, rfl⟩
    exact load_eq_ok_iff.mpr ⟨registration, handle, _, served, accepted, rfl, rfl⟩

end Script

/-! ### Migration -/

/-- Encodings of the first versions are read as what is written today. A model is loaded alike from
both versions if its timeout is zero, even where the fields behind its policy are not to be read,
and what is written of it is the newest version. A script is compiled with all the functions that
the backend finds, in its order, and comes back from the newest version. All other versions are
refused. -/
theorem Encoding.migrates_first_versions :
    (∀ definition, definition.policy.minBatchTimeout = 0 → definition.device.Numbered →
      Short definition.tag → StorablePolicy definition.policy →
      ∀ registry config id key blob,
        let older := modelLayout 1 definition.device.text definition blob
        Model.ofStored registry config id key older =
            Model.ofStored registry config id key (writeModel definition blob) ∧
          (Storable definition → blob.length < wordLimit →
            Model.ofStored registry config id key older =
              Model.load registry config id key definition blob ∧
            ∀ model, Model.ofStored registry config id key older = .ok model →
              model.definition.policy.minBatchTimeout = 0 ∧
                writeModel model.definition model.blob = writeModel definition blob)) ∧
    (∀ device tag source, device.Numbered → Short tag → Short source →
      ∀ registry id key,
        let older := scriptLayout 1 device.text ⟨device, tag, none, source⟩
        (∀ script, Script.ofStored registry id key older = .ok script ↔
          ∃ registration handle, registry.get scriptBackend = .ok registration ∧
            registration.backend.loadScript source device = .ok handle ∧
            script = Script.whole id key device tag source handle) ∧
        ∀ script, Script.ofStored registry id key older = .ok script →
          Listable script.entryPoints →
          let newer := writeScript script.device script.tag script.entryPoints script.source
          newer = scriptLayout 2 device.text ⟨device, tag, some script.entryPoints, source⟩ ∧
            ∀ other, Script.ofStored registry other key newer = .ok { script with id := other }) ∧
    RefusesUnknown 1 readTensor ∧
    (∀ registry config id key, RefusesUnknown 2 (Model.ofStored registry config id key)) ∧
    ∀ registry id key, RefusesUnknown 2 (Script.ofStored registry id key) := by
  refine ⟨?_, ?_, readTensor_refuses, ?_, ?_⟩
  · intro definition untimed numbered shortTag storablePolicy registry config id key blob older
    have alike : Model.ofStored registry config id key older =
        Model.ofStored registry config id key (writeModel definition blob) :=
      Model.ofStored_older numbered shortTag storablePolicy untimed registry config id key blob
    refine ⟨alike, fun storable sized => ?_⟩
    have loads := alike.trans (Model.ofStored_eq_load storable sized registry config id key)
    refine ⟨loads, fun model stored => ?_⟩
    obtain ⟨registration, handle, _, _, rfl⟩ := Model.load_eq_ok_iff.mp (loads ▸ stored)
    exact ⟨untimed, rfl⟩
  · intro device tag source numbered shortTag shortSource registry id key older
    have accepts (script : Script) : Script.ofStored registry id key older = .ok script ↔ _ :=
      Script.ofStored_older_eq_ok_iff numbered shortTag shortSource
    refine ⟨accepts, ?_⟩
    intro script stored listable newer
    have again := Script.ofStored_again stored fun _ => listable
    obtain ⟨registration, handle, _, _, rfl⟩ := (accepts script).mp stored
    exact ⟨rfl, again⟩
  · intro registry config id key
    exact readModel_refuses.bind fun read => Model.load registry config id key read.1 read.2
  · intro registry id key
    exact readScript_refuses.bind (Script.load registry id key)

namespace Sample

def patientModel : ModelDefinition := { storedModel with policy := ⟨8, 2, 0⟩ }

theorem storable_patientModel : Storable patientModel := by
  refine ⟨?_, by decide +kernel, ⟨by decide, by decide, by decide⟩, ⟨by decide, nofun⟩,
    ⟨by decide, by decide +kernel⟩⟩
  rintro index same
  cases same
  decide

end Sample

/-- A model and a script of the first version, and encodings of a version to come. -/
theorem Encoding.migrates_patient_model :
    (∃ model, Model.ofStored Sample.reporting .initial 0 "pair"
        (modelLayout 1 "GPU:12" Sample.patientModel [51, 120, 50]) = .ok model ∧
      model.inputCount = 3 ∧
      writeModel model.definition model.blob = writeModel Sample.patientModel [51, 120, 50]) ∧
    (∃ script, Script.ofStored Sample.reporting 0 "calls"
        (scriptLayout 1 "CPU" ⟨.cpu, "", none, "none many"⟩) = .ok script ∧
      script.entryPoints = ["none", "many"] ∧
      Script.ofStored Sample.reporting 1 "calls"
          (scriptLayout 2 "CPU" ⟨.cpu, "", some ["none", "many"], "none many"⟩) =
        .ok { script with id := 1 }) ∧
    readTensor (Bytes.ofWord 4 2 ++ [7]) = .error (.encoding (.unsupportedVersion 2)) := by
  obtain ⟨models, scripts, tensors, _, _⟩ := Encoding.migrates_first_versions
  refine ⟨?_, ?_, tensors 2 [7] (by decide) (by decide)⟩
  · have storable := Sample.storable_patientModel
    obtain ⟨loads, whole⟩ := (models Sample.patientModel rfl storable.device storable.tag
      storable.policy Sample.reporting .initial 0 "pair" [51, 120, 50]).2 storable (by decide)
    have loaded : Model.load Sample.reporting .initial 0 "pair" Sample.patientModel [51, 120, 50] =
        .ok
          { id := 0
            key := "pair"
            definition := Sample.patientModel
            inputCount := 3
            outputCount := 2
            blob := [51, 120, 50]
            registration := 0
            handle := ⟨3, 2, Except.ok⟩ } := rfl
    exact ⟨_, loads.trans loaded, rfl, (whole _ (loads.trans loaded)).2⟩
  · have found : (Probe.backend .torch).loadScript "none many" .cpu =
        .ok ⟨["none", "many"], Probe.runFunction⟩ := by
      have pieces : (Text.pieces ' ' "none many".toList).map String.ofList = ["none", "many"] := by
        decide +kernel
      rw [← pieces]
      rfl
    obtain ⟨accepts, again⟩ := scripts .cpu "" "none many" nofun (by decide +kernel)
      (by decide +kernel) Sample.reporting 0 "calls"
    have stored := (accepts _).mpr ⟨⟨0, Probe.backend .torch⟩, _, rfl, found, rfl⟩
    obtain ⟨newer, same⟩ := again _ stored ⟨by decide, by decide +kernel⟩
    exact ⟨_, stored, rfl, newer ▸ same 1⟩

end InferenceStore
