import InferenceStore.Proofs.Encoding.Recovery

/-
Encodings that are cut off, and encodings with something behind them. A reader that is given a
proper front of what was written runs out of bytes in the field that the cut falls into: the fields
before it are read as they were written, so no check on them fails, and none behind it is reached.
What stands behind an encoding is never looked at.
-/

namespace InferenceStore

namespace Encoding

variable {α β : Type}

/-! ### Cuts -/

/-- Runs out of bytes on every proper front of what was written. -/
def Misses (read : Bytes → Outcome β) (written : Bytes) : Prop :=
  ∀ front lost, written = front ++ lost → lost ≠ [] → read front = .error truncated

structure Field (read : Reader α) (value : α) (written : Bytes) : Prop where
  reads : Reads read value written
  misses : Misses read written

theorem misses_nil (read : Bytes → Outcome β) : Misses read [] := by
  intro front lost cut lacks
  exact absurd (List.append_eq_nil_iff.mp cut.symm).2 lacks

theorem Misses.onward {read : Bytes → Outcome α} {written : Bytes} (misses : Misses read written)
    (next : α → Outcome β) : Misses (fun data => read data >>= next) written := by
  intro front lost cut lacks
  dsimp only
  rw [misses front lost cut lacks]
  rfl

theorem Field.before {read : Reader α} {value : α} {written others : Bytes}
    {next : α × Bytes → Outcome β} (field : Field read value written)
    (behind : Misses (fun rest => next (value, rest)) others) :
    Misses (fun data => read data >>= next) (written ++ others) := by
  have passes (rest : Bytes) : read (written ++ rest) >>= next = next (value, rest) := by
    rw [field.reads rest]
    rfl
  intro front lost cut lacks
  dsimp only
  rcases List.append_eq_append_iff.mp cut with ⟨between, rfl, rest⟩ | ⟨between, same, rest⟩
  · rw [passes]
    exact behind between lost rest lacks
  · by_cases whole : between = []
    · subst whole
      rw [List.append_nil] at same
      have nothing := passes []
      rw [List.append_nil, same] at nothing
      rw [nothing]
      exact behind [] lost rest.symm lacks
    · exact field.misses.onward next front between same whole

/-! ### Fields -/

theorem field_bytes (bytes : Bytes) : Field (readBytes bytes.length) bytes bytes := by
  refine ⟨reads_bytes bytes, ?_⟩
  intro front lost cut lacks
  have short : front.length < bytes.length := by
    rw [cut, List.length_append]
    exact Nat.lt_add_of_pos_right (List.length_pos_iff.mpr lacks)
  rw [readBytes, if_pos short]

theorem field_word {width value : Nat} (fits : value < Bytes.fieldLimit width) :
    Field (readWord width) value (Bytes.ofWord width value) := by
  have raw := field_bytes (Bytes.ofWord width value)
  rw [Bytes.length_ofWord] at raw
  exact ⟨reads_word fits, raw.misses.onward _⟩

theorem field_text {text : String} (short : Short text) :
    Field readText text (writeText text) :=
  ⟨reads_text short, (field_word short).before ((field_bytes _).misses.onward _)⟩

theorem field_many {item : Reader α} {write : α → Bytes} {values : List α}
    (each : ∀ value ∈ values, Field item value (write value)) :
    Field (readMany item values.length) values (values.flatMap write) := by
  refine ⟨reads_many fun value member => (each value member).reads, ?_⟩
  induction values with
  | nil => exact misses_nil _
  | cons value others ih =>
      obtain ⟨first, later⟩ := List.forall_mem_cons.mp each
      exact first.before ((ih later).onward _)

theorem field_texts {texts : List String} (listable : Listable texts) :
    Field readTexts texts (writeTexts texts) :=
  ⟨reads_texts listable, (field_word listable.several).before
    (field_many fun text member => field_text (listable.short text member)).misses⟩

theorem field_device {device : Device} (numbered : device.Numbered) :
    Field readDevice device (writeText device.text) :=
  ⟨reads_device numbered, (field_text (short_device numbered)).misses.onward _⟩

theorem field_policy {policy : BatchPolicy} (storable : StorablePolicy policy) :
    Field (readPolicy modelVersion) policy (writePolicy policy) := by
  refine ⟨reads_policy storable, ?_⟩
  rw [writePolicy, List.append_assoc]
  exact (field_word storable.batchSize).before ((field_word storable.minBatchSize).before
    ((field_word storable.minBatchTimeout).misses.onward _))

theorem field_entryPoints {names : List String} (listable : Listable names) :
    Field (readEntryPoints scriptVersion) (some names) (writeTexts names) := by
  refine ⟨fun rest => ?_, (field_texts listable).misses.onward _⟩
  simp only [readEntryPoints, reads_texts listable rest, bind, Except.bind, pure, Except.pure]
  rfl

/-! ### Entities -/

theorem misses_tensor {tensor : Tensor} (ranked : tensor.rank < Bytes.fieldLimit 4)
    (sized : tensor.data.length < wordLimit) : Misses readTensor (writeTensor tensor) := by
  have shape : Field (readMany (readWord 8) tensor.rank) tensor.shape
      (tensor.shape.flatMap (Bytes.ofWord 8)) :=
    field_many fun dimension member =>
      field_word (Shape.dimensions_lt tensor.elementCount?_shape dimension member)
  have code : tensor.dtype.code < Bytes.fieldLimit 1 := by cases tensor.dtype <;> decide
  have length : tensor.data.length < Bytes.fieldLimit 8 := sized
  simp only [writeTensor, List.append_assoc]
  refine (field_word (by decide)).before ((field_word code).before ?_)
  simp only [DType.ofCode?_code]
  refine (field_word ranked).before (shape.before ?_)
  simp only [tensor.elementCount?_shape]
  exact (field_word length).before ((field_bytes tensor.data).misses.onward _)

theorem misses_model {definition : ModelDefinition} {blob : Bytes}
    (storable : Storable definition) (sized : blob.length < wordLimit) :
    Misses readModel (writeModel definition blob) := by
  have code : definition.backend.code < Bytes.fieldLimit 1 := by
    cases definition.backend <;> decide
  have length : blob.length < Bytes.fieldLimit 8 := sized
  simp only [writeModel, List.append_assoc]
  refine (field_word (by decide)).before ((field_word code).before ?_)
  simp only [BackendKind.ofCode?_code]
  refine (field_device storable.device).before ?_
  dsimp only
  refine (field_text storable.tag).before ?_
  dsimp only
  refine (field_policy storable.policy).before ?_
  dsimp only
  refine (field_texts storable.inputs).before ?_
  dsimp only
  refine (field_texts storable.outputs).before ?_
  dsimp only
  exact (field_word length).before ((field_bytes blob).misses.onward _)

theorem misses_script {script : Script} (storable : StorableScript script) :
    Misses readScript
      (writeScript script.device script.tag script.entryPoints script.source) := by
  simp only [writeScript, List.append_assoc]
  exact (field_word (by decide)).before ((field_device storable.device).before
    ((field_text storable.tag).before ((field_entryPoints storable.entryPoints).before
      ((field_text storable.source).misses.onward _))))

/-- Written bytes show where they end: less of them is noticed, and more is not looked at. -/
structure Delimited (read : Bytes → Outcome β) (written : Bytes) : Prop where
  misses : Misses read written
  ignores : ∀ behind, read (written ++ behind) = read written

theorem delimited_of_reads {read : Bytes → Outcome α} {written : Bytes} {value : α}
    (misses : Misses read written) (reads : ∀ behind, read (written ++ behind) = .ok value) :
    Delimited read written := by
  refine ⟨misses, fun behind => ?_⟩
  have alone := reads []
  rw [List.append_nil] at alone
  rw [reads behind, alone]

theorem Delimited.onward {read : Bytes → Outcome α} {written : Bytes}
    (delimited : Delimited read written) (next : α → Outcome β) :
    Delimited (fun data => read data >>= next) written :=
  ⟨delimited.misses.onward next, fun behind => congrArg (· >>= next) (delimited.ignores behind)⟩

/-- Of every entity whose lengths can be written, whatever backends and configuration there are and
whatever its instance and its key would be, a proper front of the encoding is refused for being cut
off, and bytes behind the encoding change nothing. -/
theorem detects_truncation :
    truncated = .encoding .truncated ∧
    EncodingFault.truncated.message = "truncated encoding" ∧
    (∀ tensor : Tensor, tensor.rank < Bytes.fieldLimit 4 → tensor.data.length < wordLimit →
      Delimited readTensor (writeTensor tensor)) ∧
    (∀ model : Model, Storable model.definition → model.blob.length < wordLimit →
      ∀ registry config id key, Delimited (Model.ofStored registry config id key)
        (writeModel model.definition model.blob)) ∧
    ∀ script : Script, StorableScript script →
      ∀ registry id key, Delimited (Script.ofStored registry id key)
        (writeScript script.device script.tag script.entryPoints script.source) := by
  refine ⟨rfl, rfl, ?_, ?_, ?_⟩
  · intro tensor ranked sized
    exact delimited_of_reads (misses_tensor ranked sized)
      fun behind => readTensor_writeTensor behind ranked sized
  · intro model storable sized registry config id key
    have definition := delimited_of_reads (misses_model storable sized)
      fun behind => readModel_writeModel behind storable sized
    exact definition.onward _
  · intro script storable registry id key
    have definition := delimited_of_reads (misses_script storable)
      fun behind => readScript_writeScript behind storable
    exact definition.onward _

end Encoding

namespace Sample

def loadedModel : Model :=
  { id := 0
    key := "pair"
    definition := storedModel
    inputCount := 3
    outputCount := 2
    blob := [51, 120, 50]
    registration := 0
    handle := ⟨3, 2, Except.ok⟩ }

def loadedScript : Script :=
  { id := 0
    key := "calls"
    device := .cpu
    tag := ""
    source := "none many"
    entryPoints := ["many"]
    handle := ⟨["none", "many"], Probe.runFunction⟩ }

theorem storable_loadedModel : Encoding.Storable loadedModel.definition := by
  have numbered : Device.Numbered ⟨.gpu, some 12⟩ := by
    rintro index same
    cases same
    decide
  exact ⟨numbered, by decide +kernel, ⟨by decide, by decide, by decide⟩, ⟨by decide, nofun⟩,
    ⟨by decide, by decide +kernel⟩⟩

theorem storable_loadedScript : Encoding.StorableScript loadedScript :=
  ⟨nofun, by decide +kernel, ⟨by decide, by decide +kernel⟩, by decide +kernel⟩

end Sample

namespace Encoding

/-- Strings without their last byte, a model cut within the one character of its tag and a script
cut within its first length are refused, and one more byte behind the model is not. -/
theorem detects_truncation_of_samples :
    readTensor ((writeTensor Sample.words).take 35) = .error truncated ∧
    Model.ofStored Sample.reporting .initial 1 "copy"
      ((writeModel Sample.storedModel [51, 120, 50]).take 20) = .error truncated ∧
    Script.ofStored Sample.reporting 1 "copy"
      ((writeScript .cpu "" ["many"] "none many").take 6) = .error truncated ∧
    Model.ofStored Sample.reporting .initial 1 "copy"
        (writeModel Sample.storedModel [51, 120, 50] ++ [7]) =
      .ok { Sample.loadedModel with id := 1, key := "copy" } := by
  obtain ⟨_, _, tensors, models, scripts⟩ := detects_truncation
  have model := models Sample.loadedModel Sample.storable_loadedModel (by decide) Sample.reporting
    .initial 1 "copy"
  have script := scripts Sample.loadedScript Sample.storable_loadedScript Sample.reporting 1 "copy"
  refine ⟨?_, ?_, ?_, (model.ignores [7]).trans ?_⟩
  · exact (tensors Sample.words (by decide) (by decide)).misses _ _
      (List.take_append_drop 35 _).symm (by decide +kernel)
  · exact model.misses _ _ (List.take_append_drop 20 _).symm (by decide +kernel)
  · exact script.misses _ _ (List.take_append_drop 6 _).symm (by decide +kernel)
  · have loaded : Sample.loadedModel.Loaded :=
      ⟨Sample.reporting, .initial, 0, "pair", Sample.storedModel, [51, 120, 50], rfl⟩
    have served : Sample.reporting.get .torch = .ok ⟨0, Probe.backend .torch⟩ := rfl
    exact Model.ofStored_writeModel loaded Sample.storable_loadedModel (by decide) served rfl rfl
      rfl

end Encoding

end InferenceStore
