import InferenceStore.Engine.Session
import InferenceStore.Proofs.Command.Storing
import InferenceStore.Proofs.Dag.Persist
import InferenceStore.Proofs.Tensor.Texts

/-
Tensors on their way through commands. What a client reads of a tensor it can send back: the bytes
of the buffer for every type, and the values for every type but the floating ones. The command that
stores a tensor takes it apart in the same way, so the tensor that it makes is the one that was
read. The dimensions end at a keyword, which no decimal number is.
-/

namespace InferenceStore

open Command Outcome

/-! ### Replies as arguments -/

namespace Reply

/-- A reply as an argument of another command: integers in decimal, bytes as they are. -/
def argument? : Reply → Option Bytes
  | .integer value => some (Text.encode (toString value))
  | .bulk data => some data
  | _ => none

def arguments? : Reply → Option (List Bytes)
  | .array replies => replies.mapM argument?
  | reply => reply.argument?.map fun argument => [argument]

end Reply

namespace Command

/-- `AI.TENSORGET key format` -/
def TensorGet.written (key format : String) : List Bytes :=
  [Text.encode "AI.TENSORGET", Text.encode key, Text.encode format]

/-- `AI.TENSORSET key type dimension... format data...` -/
def TensorSet.written (key : String) (dtype : DType) (shape : List Nat) (format : String)
    (data : List Bytes) : List Bytes :=
  Text.encode "AI.TENSORSET" :: Text.encode key :: Text.encode dtype.name ::
    (shape.map (fun dimension => Text.encode (toString dimension)) ++ Text.encode format :: data)

/-! ### Reading what was written -/

theorem DType.ofName?_name (dtype : DType) :
    DType.ofName? (Text.encode dtype.name) = some dtype := by
  cases dtype <;> decide +kernel

theorem not_isDataKeyword {text : Bytes} {n : Nat} (spelled : Decimal.SpellsNatural text n) :
    isDataKeyword text = false := by
  obtain ⟨digits, nonempty, singles, rfl, _⟩ := spelled
  have digit : ∀ digit < 10, Text.lowerByte (Decimal.digitByte digit) ≠ 98 ∧
      Text.lowerByte (Decimal.digitByte digit) ≠ 118 := by decide
  cases digits with
  | nil => exact absurd rfl nonempty
  | cons first others =>
      obtain ⟨noB, noV⟩ := digit first (singles first List.mem_cons_self)
      refine Bool.or_eq_false_iff.mpr ⟨?_, ?_⟩
      · exact Bool.eq_false_iff.mpr fun named => noB (List.cons.inj (eq_of_beq named)).1
      · exact Bool.eq_false_iff.mpr fun named => noV (List.cons.inj (eq_of_beq named)).1

theorem dimensions_of_written {shape : List Nat} {keyword : Bytes} {data : List Bytes}
    (ends : isDataKeyword keyword = true)
    (sized : ∀ dimension ∈ shape, 0 < dimension ∧ (dimension : Int) < signedLimit) :
    dimensions (shape.map (fun dimension => Text.encode (toString dimension)) ++ keyword :: data) =
      .ok (shape, keyword :: data) := by
  induction shape with
  | nil => simp only [List.map_nil, List.nil_append, dimensions, ends, if_true]
  | cons dimension rest ih =>
      obtain ⟨⟨above, fits⟩, others⟩ := List.forall_mem_cons.mp sized
      have spelled := Decimal.numeral?_eq_some_iff.mp (Decimal.numeral?_text dimension)
      have number := not_isDataKeyword spelled
      simp only [List.map_cons, List.cons_append, dimensions, number, Bool.false_eq_true, if_false,
        Decimal.positive?_text above fits, ih others]
      rfl

theorem TensorSet.ofArguments_of_written (key : String) (dtype : DType) {shape : List Nat}
    {format : String} (data : List Bytes) {count : Nat}
    (ends : isDataKeyword (Text.encode format) = true)
    (sized : ∀ dimension ∈ shape, 0 < dimension ∧ (dimension : Int) < signedLimit)
    (counted : Shape.elementCount? shape = some count) :
    TensorSet.ofArguments (TensorSet.written key dtype shape format data) =
      (tensorOfData dtype shape count (Text.encode format :: data)).map fun tensor =>
        ⟨key, tensor⟩ := by
  have read : dimensions (shape.map (fun dimension => Text.encode (toString dimension)) ++
      Text.encode format :: data) = .ok (shape, Text.encode format :: data) :=
    dimensions_of_written ends sized
  have spelled : text (Text.encode key) = .ok key := text_eq_ok_iff.mpr rfl
  unfold TensorSet.written
  cases tail : shape.map (fun dimension => Text.encode (toString dimension)) ++
      Text.encode format :: data with
  | nil => cases shape <;> cases tail
  | cons first rest =>
      rw [tail] at read
      simp only [TensorSet.ofArguments, spelled, DType.ofName?_name, read, counted, bind,
        Except.bind]
      cases tensorOfData dtype shape count (Text.encode format :: data) <;> rfl

end Command

/-! ### Values -/

/-- Whether all elements can be written as texts and read again: there are texts of integers and
of strings, and a truth value in a command is a zero or a one. -/
structure Tensor.Legible (tensor : Tensor) : Prop where
  exact : tensor.dtype.isFloat = false
  truth : tensor.dtype = .bool → ∀ byte ∈ tensor.data, byte = 0 ∨ byte = 1

section Values

variable {dtype : DType} {raw : Bytes}

theorem exists_text (exact : dtype.isFloat = false) (held : Holds dtype 1 raw)
    (truth : dtype = .bool → ∀ byte ∈ raw, byte = 0 ∨ byte = 1) :
    ∃ piece text, Encloses dtype raw piece ∧
      (elementReply (dtype.readElement piece)).argument? = some text ∧
      dtype.writeText? text = some raw ∧ (dtype = .bool → isTruthDigit text = true) := by
  rcases held.encloses with ⟨width, fixed, rfl⟩ | ⟨rfl, piece, clean, rfl⟩
  · have numeric : dtype ≠ .string := by
      rintro rfl
      cases fixed
    obtain ⟨low, high, range⟩ := DType.exists_range exact numeric
    have writes (above : low ≤ dtype.readInteger raw) (below : dtype.readInteger raw ≤ high) :
        dtype.writeText? (Text.encode (toString (dtype.readInteger raw))) = some raw :=
      (DType.writeText?_of_range range).mpr
        ⟨_, Decimal.spells_text _, above, below, DType.writeInteger_readInteger range fixed⟩
    refine ⟨raw, Text.encode (toString (dtype.readInteger raw)), .of_width fixed rfl, ?_, ?_⟩
    · rw [DType.readElement_of_range range]
      rfl
    · by_cases truths : dtype = .bool
      · subst truths
        cases range
        obtain ⟨byte, rfl⟩ := List.length_eq_one_iff.mp (Option.some.inj fixed).symm
        rcases truth rfl byte List.mem_cons_self with rfl | rfl
        · exact ⟨writes (by decide) (by decide), fun _ => by decide⟩
        · exact ⟨writes (by decide) (by decide), fun _ => by decide⟩
      · obtain ⟨above, below⟩ := DType.readInteger_within range fixed truths
        exact ⟨writes above below, fun same => absurd same truths⟩
  · exact ⟨piece, piece, .of_string clean, rfl, DType.writeText?_of_string.mpr ⟨clean, rfl⟩, nofun⟩

theorem exists_texts {raws : List Bytes} (exact : dtype.isFloat = false)
    (held : ∀ raw ∈ raws, Holds dtype 1 raw)
    (truth : dtype = .bool → ∀ raw ∈ raws, ∀ byte ∈ raw, byte = 0 ∨ byte = 1) :
    ∃ pieces texts, List.Forall₂ (Encloses dtype) raws pieces ∧
      ((pieces.map dtype.readElement).map elementReply).mapM Reply.argument? = some texts ∧
      texts.mapM dtype.writeText? = some raws ∧
        (dtype = .bool → texts.all isTruthDigit = true) := by
  induction raws with
  | nil => exact ⟨[], [], .nil, rfl, rfl, fun _ => rfl⟩
  | cons raw others ih =>
      obtain ⟨first, behind⟩ := List.forall_mem_cons.mp held
      obtain ⟨pieces, texts, enclose, answered, written, digits⟩ :=
        ih behind fun same other member => truth same other (List.mem_cons_of_mem raw member)
      obtain ⟨piece, text, encloses, answer, writes, digit⟩ := exists_text exact first fun same =>
        truth same raw List.mem_cons_self
      refine ⟨piece :: pieces, text :: texts, .cons encloses enclose, ?_, ?_, fun same => ?_⟩
      · rw [List.map_cons, List.map_cons, List.mapM_cons, answer, answered]
        rfl
      · rw [List.mapM_cons, writes, written]
        rfl
      · rw [List.all_cons, digit same, digits same]
        rfl

end Values

namespace Tensor

theorem exists_values_of_legible {tensor : Tensor} (legible : tensor.Legible) :
    ∃ texts, (valuesReply tensor).arguments? = some texts ∧
      tensorOfData tensor.dtype tensor.shape tensor.size (Text.encode "VALUES" :: texts) =
        .ok tensor := by
  obtain ⟨raws, length, held, data⟩ := tensor.holds.exists_flatten
  obtain ⟨pieces, texts, enclose, answered, written, digits⟩ := exists_texts legible.exact held
    fun same raw member byte inside =>
      legible.truth same byte (data ▸ List.mem_flatten.mpr ⟨raw, member, inside⟩)
  have count : texts.length = tensor.size :=
    (mapM_eq_some_iff.mp written).length_eq.trans length
  have counted : Shape.elementCount? tensor.shape = some texts.length :=
    tensor.elementCount?_shape.trans (congrArg some count.symm)
  have pieced : tensor.elements = pieces.map tensor.dtype.readElement := by
    rw [elements_eq, data, ← length, rawElements_flatten enclose]
  have made : ofTexts tensor.dtype tensor.shape texts = .ok tensor := by
    rw [ofTexts_of_written counted written (data ▸ tensor.fits)]
    exact congrArg Except.ok (eq_of_same rfl rfl data.symm)
  have digital : ¬ (tensor.dtype = .bool ∧ !texts.all isTruthDigit) := by
    rintro ⟨same, other⟩
    rw [digits same] at other
    cases other
  refine ⟨texts, ?_, ?_⟩
  · rw [valuesReply, pieced]
    exact answered
  · have other : Text.isKeyword (Text.encode "VALUES") "BLOB" = false := by decide +kernel
    simp only [tensorOfData, other, Bool.false_eq_true, if_false]
    rw [if_neg (not_not.mpr count), if_neg digital, made]

theorem tensorOfData_of_bytes (tensor : Tensor) :
    tensorOfData tensor.dtype tensor.shape tensor.size [Text.encode "BLOB", tensor.data] =
      .ok tensor := by
  simp only [tensorOfData, Text.isKeyword_encode, if_true]
  exact ofData_self tensor

theorem sized_of_small {tensor : Tensor} (positive : ∀ dimension ∈ tensor.shape, 0 < dimension)
    (small : tensor.data.length < 2 ^ 63) :
    ∀ dimension ∈ tensor.shape, 0 < dimension ∧ (dimension : Int) < signedLimit := by
  intro dimension member
  have least : dimension ≤ sizeProduct tensor.shape :=
    Shape.le_sizeProduct positive dimension member
  have bytes := tensor.holds.count_le
  rw [size_eq] at bytes
  unfold signedLimit
  exact ⟨positive dimension member, by omega⟩

end Tensor

/-! ### Both commands -/

namespace Engine

theorem begin_tensorGet {engine : Engine} {key format : String} {shown : TensorFormat}
    {tensor : Tensor} (stored : engine.keyspace.get? key = some (.tensor tensor))
    (known : TensorFormat.ofArguments [Text.encode format] = .ok shown) :
    engine.begin (TensorGet.written key format) = (engine, .finished (shown.reply tensor)) := by
  have named : Command.name (TensorGet.written key format) = "AI.TENSORGET" := by
    have alone : Command.name [Text.encode "AI.TENSORGET"] = "AI.TENSORGET" := by decide +kernel
    exact alone
  have spelled : text (Text.encode key) = .ok key := text_eq_ok_iff.mpr rfl
  have read : TensorGet.ofArguments (TensorGet.written key format) = .ok ⟨key, shown⟩ := by
    simp only [TensorGet.ofArguments, TensorGet.written, List.length_singleton, spelled, known]
    rfl
  simp only [begin, named, answer, getTensor, read, bind, Except.bind, Keyspace.getTensor, stored]
  rfl

theorem begin_tensorSet {engine : Engine} {arguments : List Bytes} {key : String} {tensor : Tensor}
    (named : Command.name arguments = "AI.TENSORSET")
    (read : TensorSet.ofArguments arguments = .ok ⟨key, tensor⟩) :
    engine.begin arguments =
      immediate (engine.write (engine.keyspace.putTensor key tensor)) := by
  simp only [begin, named, setTensor, read]

/-- What one store shows of a tensor in some format is the tensor when another store is told it
under any key, which takes it unless the key holds a value of another type. -/
def Passes (engine other : Engine) (key copy : String) (tensor : Tensor) (format : String) : Prop :=
  ∃ reply data, engine.begin (TensorGet.written key format) = (engine, .finished reply) ∧
    reply.arguments? = some data ∧
    TensorSet.ofArguments (TensorSet.written copy tensor.dtype tensor.shape format data) =
      .ok ⟨copy, tensor⟩ ∧
    other.begin (TensorSet.written copy tensor.dtype tensor.shape format data) =
      if other.keyspace.admitsTensor copy then
        ({ other with keyspace := other.keyspace.set copy (.tensor tensor) }, .finished .okay)
      else (other, .finished (.error .wrongType))

variable {engine other : Engine} {key copy format : String} {tensor : Tensor}

theorem passes_of_read {shown : TensorFormat} {data : List Bytes}
    (stored : engine.keyspace.get? key = some (.tensor tensor))
    (positive : ∀ dimension ∈ tensor.shape, 0 < dimension) (small : tensor.data.length < 2 ^ 63)
    (known : TensorFormat.ofArguments [Text.encode format] = .ok shown)
    (ends : isDataKeyword (Text.encode format) = true)
    (answered : (shown.reply tensor).arguments? = some data)
    (made : tensorOfData tensor.dtype tensor.shape tensor.size (Text.encode format :: data) =
      .ok tensor) : engine.Passes other key copy tensor format := by
  have read : TensorSet.ofArguments (TensorSet.written copy tensor.dtype tensor.shape format data) =
      .ok ⟨copy, tensor⟩ := by
    rw [TensorSet.ofArguments_of_written copy tensor.dtype data ends
      (tensor.sized_of_small positive small) tensor.elementCount?_shape, made]
    rfl
  have named : Command.name (TensorSet.written copy tensor.dtype tensor.shape format data) =
      "AI.TENSORSET" := by
    have alone : Command.name [Text.encode "AI.TENSORSET"] = "AI.TENSORSET" := by decide +kernel
    exact alone
  refine ⟨_, data, begin_tensorGet stored known, answered, read, ?_⟩
  rw [begin_tensorSet named read, Keyspace.putTensor_eq]
  cases other.keyspace.admitsTensor copy <;> rfl

/-- Every tensor passes as the bytes of its buffer, and one whose elements can be written passes as
its values. -/
theorem tensor_passes (engine other : Engine) (key copy : String) (tensor : Tensor)
    (stored : engine.keyspace.get? key = some (.tensor tensor))
    (positive : ∀ dimension ∈ tensor.shape, 0 < dimension) (small : tensor.data.length < 2 ^ 63) :
    engine.Passes other key copy tensor "BLOB" ∧
      (tensor.Legible → engine.Passes other key copy tensor "VALUES") := by
  constructor
  · have known : TensorFormat.ofArguments [Text.encode "BLOB"] = .ok ⟨false, true, false⟩ := by
      decide +kernel
    exact passes_of_read stored positive small known (by decide +kernel) rfl
      tensor.tensorOfData_of_bytes
  · intro legible
    have known : TensorFormat.ofArguments [Text.encode "VALUES"] = .ok ⟨false, false, true⟩ := by
      decide +kernel
    obtain ⟨texts, answered, made⟩ := Tensor.exists_values_of_legible legible
    exact passes_of_read stored positive small known (by decide +kernel) answered made

def wordLimits : Tensor := ⟨.int16, [2, 1], [0, 128, 255, 127], by decide⟩

theorem word_limits_pass : wordLimits.elements = [.integer (-32768), .integer 32767] ∧
    ∀ other, Passes
      { create .initial false with keyspace := Keyspace.empty.set "t" (.tensor wordLimits) }
      other "t" "copy" wordLimits "VALUES" := by
  refine ⟨by decide, fun other => (tensor_passes _ other "t" "copy" wordLimits ?_ ?_ ?_).2 ?_⟩
  · rw [Keyspace.get?_set, if_pos rfl]
  · decide
  · decide
  · exact ⟨rfl, nofun⟩

end Engine

end InferenceStore
