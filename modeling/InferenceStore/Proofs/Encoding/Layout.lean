import InferenceStore.Proofs.Encoding.Recovery
import InferenceStore.Proofs.Tensor.Cutting

/-
What accepted encodings look like. A reader accepts only what the writer of its field puts there,
and only values that can be written, so what it has taken off the front can be put back. From field
to field this gives the bytes of whole encodings in the layout of their version. The one thing that
is not told by what was read is how the text of the device was spelled.
-/

namespace InferenceStore

open Outcome

namespace Device

theorem index_of_natural {limit n : Nat} {text : Bytes}
    (read : Decimal.natural? limit text = some n) : n < limit := by
  unfold Decimal.natural? at read
  exact of_decide_eq_true (Option.filter_eq_some_iff.mp read).2

theorem numbered_of_text {text : String} {device : Device} (read : ofText? text = some device) :
    device.Numbered := by
  unfold ofText? at read
  split at read
  rename_i name index cut
  split at read
  · cases read
  · cases read
    exact nofun
  · obtain ⟨n, number, rfl⟩ := Option.map_eq_some_iff.mp read
    rintro index same
    cases same
    exact index_of_natural number

end Device

namespace Encoding

variable {α : Type} {data rest : Bytes}

/-! ### Fields -/

/-- What is read can be written, and stood in front just as it is written. -/
def Undoes (read : Reader α) (write : α → Bytes) (fits : α → Prop) : Prop :=
  ∀ data value rest, read data = .ok (value, rest) → fits value ∧ data = write value ++ rest

theorem parts_of_readBytes {length : Nat} {raw : Bytes}
    (read : readBytes length data = .ok (raw, rest)) :
    raw.length = length ∧ data = raw ++ rest := by
  unfold readBytes at read
  split at read
  · cases read
  · rename_i enough
    cases read
    exact ⟨List.length_take_of_le (Nat.le_of_not_lt enough), (List.take_append_drop ..).symm⟩

theorem undoes_word (width : Nat) :
    Undoes (readWord width) (Bytes.ofWord width) (· < Bytes.fieldLimit width) := by
  intro data value rest read
  obtain ⟨⟨raw, behind⟩, taken, read⟩ := bind_eq_ok.mp read
  cases read
  obtain ⟨rfl, rfl⟩ := parts_of_readBytes taken
  exact ⟨Bytes.toWord_lt raw, by rw [Bytes.ofWord_toWord]⟩

theorem undoes_text : Undoes readText writeText Short := by
  intro data text rest read
  obtain ⟨⟨length, afterLength⟩, counted, read⟩ := bind_eq_ok.mp read
  obtain ⟨⟨raw, behind⟩, taken, read⟩ := bind_eq_ok.mp read
  dsimp only at read
  split at read
  · rename_i known decoded
    cases read
    obtain ⟨short, rfl⟩ := undoes_word 4 _ _ _ counted
    obtain ⟨rfl, rfl⟩ := parts_of_readBytes taken
    obtain rfl := Text.decode?_eq_some_iff.mp decoded
    exact ⟨short, (List.append_assoc ..).symm⟩
  · cases read

theorem parts_of_readMany {item : Reader α} {write : α → Bytes} {fits : α → Prop}
    (each : Undoes item write fits) {count : Nat} {values : List α}
    (read : readMany item count data = .ok (values, rest)) :
    values.length = count ∧ (∀ value ∈ values, fits value) ∧
      data = values.flatMap write ++ rest := by
  induction count generalizing data values with
  | zero =>
      cases read
      exact ⟨rfl, List.forall_mem_nil _, rfl⟩
  | succ count ih =>
      obtain ⟨⟨value, afterValue⟩, first, read⟩ := bind_eq_ok.mp read
      obtain ⟨⟨others, behind⟩, later, read⟩ := bind_eq_ok.mp read
      cases read
      obtain ⟨fit, rfl⟩ := each _ _ _ first
      obtain ⟨rfl, allFit, rfl⟩ := ih later
      refine ⟨rfl, List.forall_mem_cons.mpr ⟨fit, allFit⟩, ?_⟩
      rw [List.flatMap_cons, List.append_assoc]

theorem undoes_texts : Undoes readTexts writeTexts Listable := by
  intro data texts rest read
  obtain ⟨⟨count, afterCount⟩, counted, items⟩ := bind_eq_ok.mp read
  obtain ⟨rfl, short, rfl⟩ := parts_of_readMany undoes_text items
  obtain ⟨several, rfl⟩ := undoes_word 4 _ _ _ counted
  exact ⟨⟨several, short⟩, (List.append_assoc ..).symm⟩

/-- A text that can be written and is read as this device. -/
def Names (text : String) (device : Device) : Prop :=
  Short text ∧ Device.ofText? text = some device

theorem parts_of_readDevice {device : Device} (read : readDevice data = .ok (device, rest)) :
    ∃ text, Names text device ∧ data = writeText text ++ rest := by
  obtain ⟨⟨text, behind⟩, written, read⟩ := bind_eq_ok.mp read
  dsimp only at read
  split at read
  · rename_i known
    cases read
    obtain ⟨short, rfl⟩ := undoes_text _ _ _ written
    exact ⟨text, ⟨short, known⟩, rfl⟩
  · cases read

/-! ### Tensors -/

theorem parts_of_readTensor {tensor : Tensor} (read : readTensor data = .ok tensor) :
    tensor.rank < Bytes.fieldLimit 4 ∧ tensor.data.length < wordLimit ∧
      ∃ rest, data = writeTensor tensor ++ rest := by
  obtain ⟨⟨version, afterVersion⟩, versioned, read⟩ := bind_eq_ok.mp read
  dsimp only at read
  split at read
  · cases read
  rename_i current
  obtain ⟨⟨code, afterCode⟩, coded, read⟩ := bind_eq_ok.mp read
  dsimp only at read
  split at read
  · cases read
  rename_i dtype known
  obtain ⟨⟨rank, afterRank⟩, ranked, read⟩ := bind_eq_ok.mp read
  obtain ⟨⟨shape, afterShape⟩, shaped, read⟩ := bind_eq_ok.mp read
  dsimp only at read
  split at read
  · cases read
  obtain ⟨⟨length, afterLength⟩, measured, read⟩ := bind_eq_ok.mp read
  obtain ⟨⟨buffer, rest⟩, taken, read⟩ := bind_eq_ok.mp read
  obtain ⟨rfl, rfl, rfl⟩ := Tensor.same_of_ofData read
  obtain ⟨rfl, rfl⟩ := parts_of_readBytes taken
  obtain ⟨sized, rfl⟩ := undoes_word 8 _ _ _ measured
  obtain ⟨rfl, _, rfl⟩ := parts_of_readMany (undoes_word 8) shaped
  obtain ⟨small, rfl⟩ := undoes_word 4 _ _ _ ranked
  obtain ⟨_, rfl⟩ := undoes_word 1 _ _ _ coded
  obtain ⟨_, rfl⟩ := undoes_word 4 _ _ _ versioned
  refine ⟨small, sized, rest, ?_⟩
  rw [writeTensor, DType.ofCode?_eq_some known, Classical.not_not.mp current]
  simp only [List.append_assoc]
  rfl

/-! ### Models -/

/-- The bytes of a policy. The first version holds no timeout. -/
def policyLayout (version : Nat) (policy : BatchPolicy) : Bytes :=
  Bytes.ofWord 8 policy.batchSize ++ Bytes.ofWord 8 policy.minBatchSize ++
    if version = 1 then [] else Bytes.ofWord 8 policy.minBatchTimeout

def modelLayout (version : Nat) (device : String) (definition : ModelDefinition)
    (blob : Bytes) : Bytes :=
  Bytes.ofWord 4 version ++
    Bytes.ofWord 1 definition.backend.code ++
    writeText device ++
    writeText definition.tag ++
    policyLayout version definition.policy ++
    writeTexts definition.inputs ++
    writeTexts definition.outputs ++
    Bytes.ofWord 8 blob.length ++
    blob

theorem writeModel_eq (definition : ModelDefinition) (blob : Bytes) :
    writeModel definition blob =
      modelLayout modelVersion definition.device.text definition blob := rfl

theorem parts_of_readPolicy {version : Nat} {policy : BatchPolicy}
    (read : readPolicy version data = .ok (policy, rest)) :
    StorablePolicy policy ∧ data = policyLayout version policy ++ rest := by
  obtain ⟨⟨batchSize, afterBatchSize⟩, first, read⟩ := bind_eq_ok.mp read
  obtain ⟨⟨minBatchSize, afterMinBatchSize⟩, second, read⟩ := bind_eq_ok.mp read
  dsimp only at read
  split at read
  · rename_i oldest
    cases read
    obtain ⟨minBatchSizeFits, rfl⟩ := undoes_word 8 _ _ _ second
    obtain ⟨batchSizeFits, rfl⟩ := undoes_word 8 _ _ _ first
    refine ⟨⟨batchSizeFits, minBatchSizeFits, (by decide : 0 < wordLimit)⟩, ?_⟩
    simp only [policyLayout, if_pos oldest, List.append_nil, List.append_assoc]
  · rename_i newer
    obtain ⟨⟨minBatchTimeout, afterTimeout⟩, third, read⟩ := bind_eq_ok.mp read
    cases read
    obtain ⟨minBatchTimeoutFits, rfl⟩ := undoes_word 8 _ _ _ third
    obtain ⟨minBatchSizeFits, rfl⟩ := undoes_word 8 _ _ _ second
    obtain ⟨batchSizeFits, rfl⟩ := undoes_word 8 _ _ _ first
    refine ⟨⟨batchSizeFits, minBatchSizeFits, minBatchTimeoutFits⟩, ?_⟩
    simp only [policyLayout, if_neg newer, List.append_assoc]

/-- An accepted encoding holds what was read in the layout of an accepted version. -/
theorem parts_of_readModel {definition : ModelDefinition} {blob : Bytes}
    (read : readModel data = .ok (definition, blob)) :
    Storable definition ∧ blob.length < wordLimit ∧
      ∃ version device rest, version ≠ 0 ∧ version ≤ modelVersion ∧ Names device definition.device ∧
        data = modelLayout version device definition blob ++ rest := by
  obtain ⟨⟨version, afterVersion⟩, versioned, read⟩ := bind_eq_ok.mp read
  dsimp only at read
  split at read
  · cases read
  rename_i accepted
  obtain ⟨⟨code, afterCode⟩, coded, read⟩ := bind_eq_ok.mp read
  dsimp only at read
  split at read
  · cases read
  rename_i backend known
  obtain ⟨⟨device, afterDevice⟩, placed, read⟩ := bind_eq_ok.mp read
  obtain ⟨⟨tag, afterTag⟩, tagged, read⟩ := bind_eq_ok.mp read
  obtain ⟨⟨policy, afterPolicy⟩, ruled, read⟩ := bind_eq_ok.mp read
  obtain ⟨⟨inputs, afterInputs⟩, taking, read⟩ := bind_eq_ok.mp read
  obtain ⟨⟨outputs, afterOutputs⟩, giving, read⟩ := bind_eq_ok.mp read
  obtain ⟨⟨length, afterLength⟩, measured, read⟩ := bind_eq_ok.mp read
  obtain ⟨⟨content, rest⟩, taken, read⟩ := bind_eq_ok.mp read
  cases read
  obtain ⟨rfl, rfl⟩ := parts_of_readBytes taken
  obtain ⟨sized, rfl⟩ := undoes_word 8 _ _ _ measured
  obtain ⟨outputsFit, rfl⟩ := undoes_texts _ _ _ giving
  obtain ⟨inputsFit, rfl⟩ := undoes_texts _ _ _ taking
  obtain ⟨policyFits, rfl⟩ := parts_of_readPolicy ruled
  obtain ⟨tagFits, rfl⟩ := undoes_text _ _ _ tagged
  obtain ⟨text, names, rfl⟩ := parts_of_readDevice placed
  obtain ⟨_, rfl⟩ := undoes_word 1 _ _ _ coded
  obtain ⟨_, rfl⟩ := undoes_word 4 _ _ _ versioned
  refine ⟨⟨Device.numbered_of_text names.2, tagFits, policyFits, inputsFit, outputsFit⟩, sized,
    version, text, rest, by omega, by omega, names, ?_⟩
  simp only [modelLayout, BackendKind.ofCode?_eq_some known, List.append_assoc]

/-! ### Scripts -/

def entryPointsLayout : Option (List String) → Bytes
  | none => []
  | some names => writeTexts names

def scriptLayout (version : Nat) (device : String) (definition : ScriptDefinition) : Bytes :=
  Bytes.ofWord 4 version ++
    writeText device ++
    writeText definition.tag ++
    entryPointsLayout definition.entryPoints ++
    writeText definition.source

theorem writeScript_eq (device : Device) (tag : String) (entryPoints : List String)
    (source : String) : writeScript device tag entryPoints source =
      scriptLayout scriptVersion device.text ⟨device, tag, some entryPoints, source⟩ := rfl

theorem parts_of_readEntryPoints {version : Nat} {entryPoints : Option (List String)}
    (read : readEntryPoints version data = .ok (entryPoints, rest)) :
    (entryPoints = none ↔ version = 1) ∧ (∀ names ∈ entryPoints, Listable names) ∧
      data = entryPointsLayout entryPoints ++ rest := by
  unfold readEntryPoints at read
  split at read
  · rename_i oldest
    cases read
    exact ⟨iff_of_true rfl oldest, nofun, rfl⟩
  · rename_i newer
    obtain ⟨⟨names, behind⟩, listed, read⟩ := bind_eq_ok.mp read
    cases read
    obtain ⟨listable, rfl⟩ := undoes_texts _ _ _ listed
    refine ⟨iff_of_false nofun newer, ?_, rfl⟩
    rintro _ ⟨⟩
    exact listable

theorem parts_of_readScript {definition : ScriptDefinition}
    (read : readScript data = .ok definition) :
    Short definition.tag ∧ Short definition.source ∧
      (∀ names ∈ definition.entryPoints, Listable names) ∧
      ∃ version device rest, version ≠ 0 ∧ version ≤ scriptVersion ∧
        (definition.entryPoints = none ↔ version = 1) ∧ Names device definition.device ∧
        data = scriptLayout version device definition ++ rest := by
  obtain ⟨⟨version, afterVersion⟩, versioned, read⟩ := bind_eq_ok.mp read
  dsimp only at read
  split at read
  · cases read
  rename_i accepted
  obtain ⟨⟨device, afterDevice⟩, placed, read⟩ := bind_eq_ok.mp read
  obtain ⟨⟨tag, afterTag⟩, tagged, read⟩ := bind_eq_ok.mp read
  obtain ⟨⟨entryPoints, afterEntryPoints⟩, listed, read⟩ := bind_eq_ok.mp read
  obtain ⟨⟨source, rest⟩, written, read⟩ := bind_eq_ok.mp read
  cases read
  obtain ⟨sourceFits, rfl⟩ := undoes_text _ _ _ written
  obtain ⟨oldest, listable, rfl⟩ := parts_of_readEntryPoints listed
  obtain ⟨tagFits, rfl⟩ := undoes_text _ _ _ tagged
  obtain ⟨text, names, rfl⟩ := parts_of_readDevice placed
  obtain ⟨_, rfl⟩ := undoes_word 4 _ _ _ versioned
  refine ⟨tagFits, sourceFits, listable, version, text, rest, by omega, by omega, oldest, names, ?_⟩
  simp only [scriptLayout, List.append_assoc]

end Encoding

end InferenceStore
