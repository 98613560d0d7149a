import InferenceStore.Proofs.Number.Integers
import InferenceStore.Proofs.Tensor.Cutting
import InferenceStore.Proofs.Tensor.Integers
import InferenceStore.Proofs.Tensor.Representation
import Mathlib.Data.List.Forall2

/-
Tensors from texts. A list of texts is taken exactly if there is one for each place of the shape and
each is a text of an element, and what is stored are the elements that the texts stand for. Integers
are read back as they were given, and strings too, however short they are.
-/

namespace InferenceStore

/-! ### Counting -/

namespace Shape

private theorem extend_eq_some_iff {shape : List Nat} {start count : Nat} (room : start < wordLimit)
    (words : ∀ dimension ∈ shape, dimension < wordLimit) :
    shape.foldlM extend start = some count ↔
      count = start * sizeProduct shape ∧
        ∀ n, start * sizeProduct (shape.take n) < wordLimit := by
  induction shape generalizing start with
  | nil =>
      simp only [List.take_nil, sizeProduct, Nat.mul_one, List.foldlM_nil]
      exact ⟨fun same => ⟨(Option.some.inj same).symm, fun _ => room⟩, fun same => same.1 ▸ rfl⟩
  | cons dimension rest ih =>
      obtain ⟨word, others⟩ := List.forall_mem_cons.mp words
      rw [List.foldlM_cons, extend]
      constructor
      · intro counted
        obtain ⟨next, extended, onward⟩ := Option.bind_eq_some_iff.mp counted
        obtain ⟨small, same⟩ := Option.ite_none_right_eq_some.mp extended
        cases same
        obtain ⟨product, below⟩ := (ih small.2 others).mp onward
        refine ⟨by rw [product, sizeProduct, Nat.mul_assoc], fun n => ?_⟩
        cases n with
        | zero => rwa [List.take_zero, sizeProduct, Nat.mul_one]
        | succ n =>
            rw [List.take_succ_cons, sizeProduct, ← Nat.mul_assoc]
            exact below n
      · rintro ⟨rfl, below⟩
        have behind (n : Nat) : start * dimension * sizeProduct (rest.take n) < wordLimit := by
          have whole := below (n + 1)
          rwa [List.take_succ_cons, sizeProduct, ← Nat.mul_assoc] at whole
        have first : start * dimension < wordLimit := by
          have alone := behind 0
          rwa [List.take_zero, sizeProduct, Nat.mul_one] at alone
        rw [if_pos ⟨word, first⟩]
        exact (ih first others).mpr ⟨(Nat.mul_assoc ..).symm, behind⟩

theorem le_sizeProduct {shape : List Nat} (positive : ∀ dimension ∈ shape, 0 < dimension) :
    ∀ dimension ∈ shape, dimension ≤ sizeProduct shape := by
  induction shape with
  | nil => exact nofun
  | cons first rest ih =>
      obtain ⟨above, others⟩ := List.forall_mem_cons.mp positive
      refine List.forall_mem_cons.mpr ⟨Nat.le_mul_of_pos_right _ (sizeProduct_pos others), ?_⟩
      exact fun dimension member =>
        Nat.le_trans (ih others dimension member) (Nat.le_mul_of_pos_left _ above)

/-- Whether one number is the exact product of some dimensions, and no product on the way to it is
too large for a word. -/
def CountedBy (shape : List Nat) (count : Nat) : Prop :=
  count = sizeProduct shape ∧ ∀ n, sizeProduct (shape.take n) < wordLimit

theorem elementCount?_eq_some_iff {shape : List Nat} {count : Nat}
    (words : ∀ dimension ∈ shape, dimension < wordLimit) :
    elementCount? shape = some count ↔ CountedBy shape count := by
  have counted : shape.foldlM extend 1 = some count ↔ count = 1 * sizeProduct shape ∧
      ∀ n, 1 * sizeProduct (shape.take n) < wordLimit := extend_eq_some_iff (by decide) words
  simp only [Nat.one_mul] at counted
  exact counted

end Shape

/-! ### Single elements -/

/-- The bytes of one element, with its terminator if it is a string, and without. -/
structure Encloses (dtype : DType) (raw piece : Bytes) : Prop where
  holds : Holds dtype 1 raw
  inside : rawElements dtype 1 raw = [piece]

section Pieces

variable {dtype : DType} {raws pieces : List Bytes} {raw piece data : Bytes} {width n : Nat}

theorem Encloses.of_width (fixed : dtype.width? = some width) (length : raw.length = width) :
    Encloses dtype raw raw where
  holds := by
    unfold Holds
    simp only [fixed, length, Nat.one_mul]
  inside := by
    have spans : spansOf dtype 1 raw = [⟨0, width⟩] := by
      unfold spansOf
      simp only [fixed, List.range_one, List.map_singleton, Nat.zero_mul, Nat.zero_add, Nat.one_mul]
    rw [rawElements, spans, List.map_singleton, Span.slice, List.drop_zero, Nat.sub_zero, ← length,
      List.take_length]

theorem Encloses.of_string (clean : terminator ∉ piece) :
    Encloses .string (piece ++ [terminator]) piece :=
  ⟨holds_piece clean, rawElements_piece clean⟩

theorem Holds.encloses (held : Holds dtype 1 raw) :
    (∃ width, dtype.width? = some width ∧ raw.length = width) ∨
      dtype = .string ∧ ∃ piece, terminator ∉ piece ∧ raw = piece ++ [terminator] := by
  by_cases strings : dtype = .string
  · subst strings
    obtain ⟨pieces, count, clean, whole⟩ := exists_pieces held.2
    obtain ⟨piece, rfl⟩ := List.length_eq_one_iff.mp (count.trans held.1)
    exact .inr ⟨rfl, piece, clean piece List.mem_cons_self, by simpa using whole⟩
  · obtain ⟨width, fixed⟩ := DType.width_of_numeric strings
    unfold Holds at held
    simp only [fixed, Nat.one_mul] at held
    exact .inl ⟨width, fixed, held⟩

theorem Holds.flatten (each : ∀ raw ∈ raws, Holds dtype 1 raw) :
    Holds dtype raws.length raws.flatten := by
  induction raws with
  | nil => exact .nil dtype
  | cons raw others ih =>
      obtain ⟨first, behind⟩ := List.forall_mem_cons.mp each
      rw [List.length_cons, Nat.add_comm]
      exact first.append (ih behind)

theorem Holds.exists_flatten (held : Holds dtype n data) :
    ∃ raws : List Bytes, raws.length = n ∧ (∀ raw ∈ raws, Holds dtype 1 raw) ∧
      data = raws.flatten := by
  induction n generalizing data with
  | zero => exact ⟨[], rfl, nofun, held.eq_nil⟩
  | succ n ih =>
      rw [Nat.add_comm] at held
      obtain ⟨front, back, rfl, first, behind⟩ := held.exists_cut
      obtain ⟨raws, length, each, rfl⟩ := ih behind
      exact ⟨front :: raws, congrArg (· + 1) length, List.forall_mem_cons.mpr ⟨first, each⟩, rfl⟩

theorem rawElements_flatten (each : List.Forall₂ (Encloses dtype) raws pieces) :
    rawElements dtype raws.length raws.flatten = pieces := by
  induction each with
  | nil =>
      have empty := (Holds.nil dtype).length_spans
      rw [List.length_nil, List.flatten_nil, rawElements, List.length_eq_zero_iff.mp empty]
      rfl
  | cons encloses _ ih =>
      rw [List.length_cons, Nat.add_comm, List.flatten_cons, encloses.holds.raw_append,
        encloses.inside, ih]
      rfl

end Pieces

/-! ### Lists of texts -/

theorem mapM_eq_some_iff {α β : Type} {f : α → Option β} {items : List α} {values : List β} :
    items.mapM f = some values ↔
      List.Forall₂ (fun item value => f item = some value) items values := by
  induction items generalizing values with
  | nil =>
      rw [List.mapM_nil, List.forall₂_nil_left_iff]
      exact ⟨fun same => (Option.some.inj same).symm, fun empty => empty ▸ rfl⟩
  | cons item rest ih =>
      rw [List.mapM_cons, List.forall₂_cons_left_iff]
      constructor
      · intro done
        obtain ⟨value, first, done⟩ := Option.bind_eq_some_iff.mp done
        obtain ⟨others, behind, done⟩ := Option.bind_eq_some_iff.mp done
        exact ⟨value, others, first, ih.mp behind, (Option.some.inj done).symm⟩
      · rintro ⟨value, others, first, behind, rfl⟩
        exact Option.bind_eq_some_iff.mpr ⟨value, first,
          Option.bind_eq_some_iff.mpr ⟨others, ih.mpr behind, rfl⟩⟩

theorem exists_of_forall₂ {α β : Type} {related : α → β → Prop} {items : List α} {others : List β}
    (each : List.Forall₂ related items others) : ∀ item ∈ items, ∃ other, related item other :=
  have both : List.Forall₂ (fun item other => (∃ other, related item other) ∧ related item other)
      items others := each.imp fun _ other found => ⟨⟨other, found⟩, found⟩
  ((List.forall₂_and_left ..).mp both).1

namespace DType

/-- What a text stands for as an element of a type that is not a floating one. -/
inductive Denotes (dtype : DType) : Bytes → Element → Prop
  | integer {low high value : Int} {text : Bytes} (range : dtype.integerRange? = some (low, high))
      (spelled : Decimal.Spells text value) (above : low ≤ value) (below : value ≤ high) :
      Denotes dtype text (.integer value)
  | string {text : Bytes} (typed : dtype = .string) (clean : terminator ∉ text) :
      Denotes dtype text (.text text)

variable {dtype : DType} {text raw : Bytes} {low high : Int}

theorem writeText?_of_range (range : dtype.integerRange? = some (low, high)) :
    dtype.writeText? text = some raw ↔
      ∃ value, Decimal.Spells text value ∧ low ≤ value ∧ value ≤ high ∧
        dtype.writeInteger value = raw := by
  have word := range_within_word range
  simp only [writeText?, range, Option.map_eq_some_iff, Option.filter_eq_some_iff,
    Decimal.integer?_eq_some_iff, Bool.and_eq_true_iff, decide_eq_true_iff]
  constructor
  · rintro ⟨value, ⟨⟨spelled, _⟩, above, below⟩, same⟩
    exact ⟨value, spelled, above, below, same⟩
  · rintro ⟨value, spelled, above, below, same⟩
    exact ⟨value, ⟨⟨spelled, by omega, by omega⟩, above, below⟩, same⟩

theorem writeText?_of_string :
    DType.string.writeText? text = some raw ↔ terminator ∉ text ∧ text ++ [terminator] = raw := by
  simp only [writeText?, integerRange?]
  rw [Option.ite_none_left_eq_some, List.contains_iff_mem, Option.some.injEq]

theorem denotes_of_writeText? (exact : dtype.isFloat = false)
    (written : dtype.writeText? text = some raw) :
    ∃ piece, Encloses dtype raw piece ∧ dtype.Denotes text (dtype.readElement piece) := by
  by_cases strings : dtype = .string
  · subst strings
    obtain ⟨clean, rfl⟩ := writeText?_of_string.mp written
    exact ⟨text, .of_string clean, .string rfl clean⟩
  · obtain ⟨low, high, range⟩ := exists_range exact strings
    obtain ⟨width, fixed⟩ := width_of_range range
    obtain ⟨value, spelled, above, below, rfl⟩ := (writeText?_of_range range).mp written
    refine ⟨_, .of_width fixed (length_writeInteger fixed value), ?_⟩
    rw [readElement_of_range range, readInteger_writeInteger range above below]
    exact .integer range spelled above below

theorem exists_writeText?_of_denotes {element : Element} (denotes : dtype.Denotes text element) :
    ∃ raw, dtype.writeText? text = some raw := by
  cases denotes with
  | integer range spelled above below =>
      exact ⟨_, (writeText?_of_range range).mpr ⟨_, spelled, above, below, rfl⟩⟩
  | string typed clean =>
      subst typed
      exact ⟨_, writeText?_of_string.mpr ⟨clean, rfl⟩⟩

theorem width_le_eight {width : Nat} (fixed : dtype.width? = some width) : width ≤ 8 := by
  cases dtype <;> cases fixed <;> decide

end DType

/-! ### Tensors -/

namespace Tensor

variable {dtype : DType} {shape : List Nat} {texts : List Bytes} {tensor : Tensor}

theorem ofTexts_of_written {raws : List Bytes}
    (counted : Shape.elementCount? shape = some texts.length)
    (written : texts.mapM dtype.writeText? = some raws)
    (fits : FitsShape dtype shape raws.flatten) :
    ofTexts dtype shape texts = .ok ⟨dtype, shape, raws.flatten, fits⟩ := by
  rw [ofTexts, if_pos counted, written]
  exact dif_pos fits

theorem written_of_ofTexts (made : ofTexts dtype shape texts = .ok tensor) :
    Shape.elementCount? shape = some texts.length ∧
      ∃ raws, texts.mapM dtype.writeText? = some raws ∧
        tensor.dtype = dtype ∧ tensor.shape = shape ∧ tensor.data = raws.flatten := by
  unfold ofTexts at made
  split at made
  · rename_i counted
    split at made
    · rename_i raws written
      exact ⟨counted, raws, written, same_of_ofData made⟩
    · cases made
  · cases made

/-- Written texts lie one behind the other, and each is found again as what it stands for. -/
theorem exists_pieces_of_written (exact : dtype.isFloat = false) {raws : List Bytes}
    (written : texts.mapM dtype.writeText? = some raws) :
    ∃ pieces, List.Forall₂ (Encloses dtype) raws pieces ∧
      List.Forall₂ dtype.Denotes texts (pieces.map dtype.readElement) := by
  have each := mapM_eq_some_iff.mp written
  clear written
  induction each with
  | nil => exact ⟨[], .nil, .nil⟩
  | cons written _ ih =>
      obtain ⟨pieces, others, behind⟩ := ih
      obtain ⟨piece, encloses, denotes⟩ := DType.denotes_of_writeText? exact written
      exact ⟨piece :: pieces, .cons encloses others, .cons denotes behind⟩

theorem fits_of_written (exact : dtype.isFloat = false) (small : texts.length < 2 ^ 60)
    {raws : List Bytes} (counted : Shape.elementCount? shape = some texts.length)
    (written : texts.mapM dtype.writeText? = some raws) :
    FitsShape dtype shape raws.flatten := by
  obtain ⟨pieces, encloses, _⟩ := exists_pieces_of_written exact written
  have length := (mapM_eq_some_iff.mp written).length_eq
  have each (raw : Bytes) (member : raw ∈ raws) : Holds dtype 1 raw :=
    have ⟨_, encloses⟩ := exists_of_forall₂ encloses raw member
    encloses.holds
  refine fits_of_holds (counted.trans (congrArg some length)) (.flatten each) fun width fixed => ?_
  have narrow := DType.width_le_eight fixed
  have bytes : raws.length * width ≤ raws.length * 8 := Nat.mul_le_mul_left _ narrow
  unfold wordLimit
  omega

/-- A list of texts is taken exactly if it has as many as the shape has places, counted without
overflow, and each stands for an element. -/
theorem exists_ofTexts_iff (exact : dtype.isFloat = false) (small : texts.length < 2 ^ 60)
    (words : ∀ dimension ∈ shape, dimension < wordLimit) :
    (∃ tensor, ofTexts dtype shape texts = .ok tensor) ↔
      Shape.CountedBy shape texts.length ∧
        ∀ text ∈ texts, ∃ element, dtype.Denotes text element := by
  rw [← Shape.elementCount?_eq_some_iff words]
  constructor
  · rintro ⟨tensor, made⟩
    obtain ⟨counted, raws, written, _⟩ := written_of_ofTexts made
    obtain ⟨pieces, _, denotes⟩ := exists_pieces_of_written exact written
    exact ⟨counted, exists_of_forall₂ denotes⟩
  · rintro ⟨counted, each⟩
    have total (text : Bytes) (member : text ∈ texts) : ∃ raw, dtype.writeText? text = some raw :=
      have ⟨_, denotes⟩ := each text member
      DType.exists_writeText?_of_denotes denotes
    have written := mapM_eq_filterMap total
    exact ⟨_, ofTexts_of_written counted written (fits_of_written exact small counted written)⟩

theorem elements_of_ofTexts (exact : dtype.isFloat = false)
    (made : ofTexts dtype shape texts = .ok tensor) :
    tensor.dtype = dtype ∧ tensor.shape = shape ∧
      List.Forall₂ dtype.Denotes texts tensor.elements := by
  obtain ⟨counted, raws, written, rfl, rfl, data⟩ := written_of_ofTexts made
  obtain ⟨pieces, encloses, denotes⟩ := exists_pieces_of_written exact written
  have size : tensor.size = raws.length := by
    rw [← (mapM_eq_some_iff.mp written).length_eq]
    exact Option.some.inj (tensor.elementCount?_shape.symm.trans counted)
  refine ⟨rfl, rfl, ?_⟩
  rw [elements_eq, size, data, rawElements_flatten encloses]
  exact denotes

private theorem exists_values {low high : Int} {elements : List Element}
    (range : dtype.integerRange? = some (low, high))
    (denotes : List.Forall₂ dtype.Denotes texts elements) :
    ∃ values, List.Forall₂ Decimal.Spells texts values ∧ elements = values.map .integer := by
  induction denotes with
  | nil => exact ⟨[], .nil, rfl⟩
  | cons denotes _ ih =>
      obtain ⟨values, spelled, rfl⟩ := ih
      cases denotes with
      | integer _ first _ _ => exact ⟨_ :: values, .cons first spelled, rfl⟩
      | string typed _ =>
          subst typed
          cases range

private theorem elements_of_strings {elements : List Element}
    (denotes : List.Forall₂ DType.string.Denotes texts elements) : elements = texts.map .text := by
  induction denotes with
  | nil => rfl
  | cons denotes _ ih =>
      rw [List.map_cons, ← ih]
      cases denotes with
      | integer range => cases range
      | string => rfl

/-- Texts of integers and strings are taken exactly if there are as many as the shape asks for, and
each is a number in the range of the type, or a string without a terminator. What is stored are
then these numbers and these strings. -/
theorem stores_texts_exactly (dtype : DType) (shape : List Nat) (texts : List Bytes)
    (words : ∀ dimension ∈ shape, dimension < wordLimit) (small : texts.length < 2 ^ 60) :
    (∀ low high, dtype.integerRange? = some (low, high) →
      ((∃ tensor, ofTexts dtype shape texts = .ok tensor) ↔
        Shape.CountedBy shape texts.length ∧
          ∀ text ∈ texts, ∃ value, Decimal.Spells text value ∧ low ≤ value ∧ value ≤ high) ∧
      ∀ tensor, ofTexts dtype shape texts = .ok tensor →
        tensor.dtype = dtype ∧ tensor.shape = shape ∧
          ∃ values, List.Forall₂ Decimal.Spells texts values ∧
            tensor.elements = values.map .integer) ∧
    (dtype = .string →
      ((∃ tensor, ofTexts dtype shape texts = .ok tensor) ↔
        Shape.CountedBy shape texts.length ∧ ∀ text ∈ texts, terminator ∉ text) ∧
      ∀ tensor, ofTexts dtype shape texts = .ok tensor →
        tensor.dtype = dtype ∧ tensor.shape = shape ∧ tensor.elements = texts.map .text) := by
  constructor
  · intro low high range
    have exact : dtype.isFloat = false := by cases dtype <;> first | rfl | cases range
    refine ⟨(exists_ofTexts_iff exact small words).trans (and_congr_right fun _ => ?_), ?_⟩
    · refine forall₂_congr fun text _ => ⟨?_, ?_⟩
      · rintro ⟨element, denotes⟩
        cases denotes with
        | integer own spelled above below =>
            cases range.symm.trans own
            exact ⟨_, spelled, above, below⟩
        | string typed _ =>
            subst typed
            cases range
      · rintro ⟨value, spelled, above, below⟩
        exact ⟨_, .integer range spelled above below⟩
    · intro tensor made
      obtain ⟨typed, shaped, denotes⟩ := elements_of_ofTexts exact made
      exact ⟨typed, shaped, exists_values range denotes⟩
  · rintro rfl
    refine ⟨(exists_ofTexts_iff rfl small words).trans (and_congr_right fun _ => ?_), ?_⟩
    · refine forall₂_congr fun text _ => ⟨?_, fun clean => ⟨_, .string rfl clean⟩⟩
      rintro ⟨element, denotes⟩
      cases denotes with
      | integer range => cases range
      | string _ clean => exact clean
    · intro tensor made
      obtain ⟨typed, shaped, denotes⟩ := elements_of_ofTexts rfl made
      exact ⟨typed, shaped, elements_of_strings denotes⟩

/-- The ends of the range of a byte. -/
theorem stores_byte_limits_exactly :
    ∃ tensor, ofTexts .int8 [2, 1] [Text.encode "+127", Text.encode "-0128"] = .ok tensor ∧
      tensor.shape = [2, 1] ∧ tensor.elements = [.integer 127, .integer (-128)] := by
  have words : ∀ dimension ∈ [2, 1], dimension < wordLimit := by decide
  have most : Decimal.Spells (Text.encode "+127") 127 := Decimal.signed?_eq_some_iff.mp rfl
  have least : Decimal.Spells (Text.encode "-0128") (-128) := Decimal.signed?_eq_some_iff.mp rfl
  have counted : Shape.CountedBy [2, 1] 2 := (Shape.elementCount?_eq_some_iff words).mp rfl
  obtain ⟨taken, stored⟩ := (stores_texts_exactly .int8 [2, 1]
    [Text.encode "+127", Text.encode "-0128"] words (by decide)).1 _ _ rfl
  obtain ⟨tensor, made⟩ := taken.mpr ⟨counted, List.forall_mem_cons.mpr
    ⟨⟨_, most, by decide⟩, List.forall_mem_singleton.mpr ⟨_, least, by decide⟩⟩⟩
  obtain ⟨_, shaped, values, spelled, same⟩ := stored tensor made
  refine ⟨tensor, made, shaped, ?_⟩
  cases spelled with
  | cons first others =>
      cases others with
      | cons second ended =>
          cases ended
          rw [same, first.unique most, second.unique least]
          rfl

end Tensor

end InferenceStore
