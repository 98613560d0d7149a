import InferenceStore.Proofs.Tensor.Cutting
import InferenceStore.Proofs.Tensor.Representation

/-
Rows of a tensor. A row has as many elements as the dimensions behind the first multiply to, and
rows lie one after the other, so some rows in a row are a slice of the elements. Strings are counted
like numbers here: which bytes they take is found out by what stands before them.
-/

namespace InferenceStore

namespace Tensor

def raws (tensor : Tensor) : List Bytes := rawElements tensor.dtype tensor.size tensor.data

theorem length_raws (tensor : Tensor) : tensor.raws.length = tensor.size := by
  rw [raws, rawElements, List.length_map, tensor.holds.length_spans]

/-- A tensor of just these rows of another one: `count` of them, those from `start` on. -/
structure IsRows (whole : Tensor) (start count : Nat) (part : Tensor) : Prop where
  dtype : part.dtype = whole.dtype
  shape : part.shape = count :: whole.shape.drop 1
  raws : part.raws =
    (whole.raws.drop (start * sizeProduct (whole.shape.drop 1))).take
      (count * sizeProduct (whole.shape.drop 1))

theorem length_flatMap_raws {row : List Nat} {parts : List Tensor}
    (shapes : ∀ part ∈ parts, part.shape = part.batchSize :: row) :
    (parts.flatMap raws).length = sizeSum (parts.map batchSize) * sizeProduct row := by
  induction parts with
  | nil => exact (Nat.zero_mul _).symm
  | cons part rest ih =>
      have others := ih fun other member => shapes other (List.mem_cons_of_mem _ member)
      rw [List.flatMap_cons, List.length_append, length_raws,
        size_of_shape (shapes part (List.mem_cons_self ..)), others, List.map_cons, sizeSum,
        Nat.add_mul]

end Tensor

namespace IsStack

variable {row : List Nat} {whole part : Tensor} {parts before after : List Tensor}

theorem raws_eq (stacked : IsStack row whole parts) : whole.raws = parts.flatMap Tensor.raws :=
  stacked.rawElements_eq

theorem isRows (stacked : IsStack row whole (before ++ part :: after)) :
    whole.IsRows (sizeSum (before.map Tensor.batchSize)) part.batchSize part := by
  have member : part ∈ before ++ part :: after :=
    List.mem_append_right _ (List.mem_cons_self ..)
  have behind : whole.shape.drop 1 = row := by
    rw [stacked.shape, List.drop_succ_cons, List.drop_zero]
  have partShape := stacked.shapes part member
  have beforeLength := Tensor.length_flatMap_raws fun other inside =>
    stacked.shapes other (List.mem_append_left _ inside)
  refine ⟨stacked.dtype part member, by rw [behind]; exact partShape, ?_⟩
  have partLength := part.length_raws
  rw [Tensor.size_of_shape partShape] at partLength
  rw [stacked.raws_eq, behind, List.flatMap_append, List.flatMap_cons, ← beforeLength,
    List.drop_left, ← partLength, List.take_left]

theorem isRows_at {position : Nat} (stacked : IsStack row whole parts)
    (placed : parts[position]? = some part) :
    whole.IsRows (sizeSum ((parts.map Tensor.batchSize).take position)) part.batchSize part := by
  obtain ⟨within, rfl⟩ := List.getElem?_eq_some_iff.mp placed
  have parted : parts = parts.take position ++ parts[position] :: parts.drop (position + 1) := by
    rw [← List.drop_eq_getElem_cons within, List.take_append_drop]
  rw [parted] at stacked
  rw [← List.map_take]
  exact stacked.isRows

theorem rows (stacked : IsStack row whole (before ++ part :: after)) :
    whole.rows (sizeSum (before.map Tensor.batchSize)) part.batchSize = .ok part := by
  have own : part ∈ before ++ part :: after := List.mem_append_right _ (List.mem_cons_self ..)
  have inFront {other : Tensor} (member : other ∈ before) : other ∈ before ++ part :: after :=
    List.mem_append_left _ member
  have behind {other : Tensor} (member : other ∈ after) : other ∈ before ++ part :: after :=
    List.mem_append_right _ (List.mem_cons_of_mem _ member)
  apply Tensor.rows_eq stacked.shape (stacked.shapes part own) (stacked.dtype part own)
  · rw [stacked.data, List.flatMap_append, List.flatMap_cons]
  · exact Tensor.holds_parts (fun other member => stacked.dtype other (inFront member))
      fun other member => stacked.shapes other (inFront member)
  · exact Tensor.holds_parts (fun other member => stacked.dtype other (behind member))
      fun other member => stacked.shapes other (behind member)
  · rw [List.map_append, List.map_cons, sizeSum_append, sizeSum]

end IsStack

/-! ### Cutting rows out -/

namespace Tensor

variable {whole part : Tensor} {start count : Nat}

theorem IsRows.elements_eq (placed : whole.IsRows start count part) :
    part.elements = whole.elements.extract
      (start * sizeProduct (whole.shape.drop 1))
      ((start + count) * sizeProduct (whole.shape.drop 1)) := by
  have several : (start + count) * sizeProduct (whole.shape.drop 1) -
      start * sizeProduct (whole.shape.drop 1) = count * sizeProduct (whole.shape.drop 1) := by
    rw [Nat.add_mul, Nat.add_sub_cancel_left]
  have raws := placed.raws
  unfold Tensor.raws at raws
  rw [Tensor.elements_eq, Tensor.elements_eq, raws, placed.dtype, List.map_take, List.map_drop,
    List.extract_eq_take_drop, several]

/-- Rows that a tensor has are found by cutting it behind those before them and behind the last. -/
theorem exists_rows (ranked : 0 < whole.rank) (within : start + count ≤ whole.batchSize) :
    ∃ part, whole.rows start count = .ok part ∧ whole.IsRows start count part := by
  have fills : sizeSum [start, count, whole.batchSize - (start + count)] = whole.batchSize := by
    simp only [sizeSum]
    omega
  obtain ⟨parts, stacked, sizes⟩ := exists_parts whole _ ranked fills
  obtain ⟨front, others, rfl, rfl, sizes⟩ := List.map_eq_cons_iff.mp sizes
  obtain ⟨part, behind, rfl, rfl, _⟩ := List.map_eq_cons_iff.mp sizes
  have before : sizeSum ([front].map batchSize) = front.batchSize := Nat.add_zero _
  have parted : IsStack _ whole ([front] ++ part :: behind) := stacked
  have cut := parted.rows
  have placed := parted.isRows
  rw [before] at cut placed
  exact ⟨part, cut, placed⟩

/-- Cutting out rows fails exactly if there are no such rows, and else gives the elements of just
these rows. If they are strings, the buffer holds nothing else than them and their terminators. -/
theorem cuts_out_rows (whole : Tensor) (start count : Nat) (words : start + count < wordLimit) :
    (∀ cause, whole.rows start count = .error cause ↔
      cause = .tensor .rowsOutOfBounds ∧ (whole.rank = 0 ∨ whole.batchSize < start + count)) ∧
    (0 < whole.rank → start + count ≤ whole.batchSize →
      ∃ part, whole.rows start count = .ok part ∧ part.dtype = whole.dtype ∧
        part.shape = count :: whole.shape.drop 1 ∧
        part.elements = whole.elements.extract
          (start * sizeProduct (whole.shape.drop 1))
          ((start + count) * sizeProduct (whole.shape.drop 1)) ∧
        (whole.dtype = .string → ∃ pieces : List Bytes, part.elements = pieces.map .text ∧
          part.data = pieces.flatMap (· ++ [terminator]))) := by
  constructor
  · intro cause
    by_cases outside : whole.rank = 0 ∨ whole.batchSize < start + count
    · have refused : whole.rows start count = .error (.tensor .rowsOutOfBounds) := by
        rw [rows, wrapWord_of_lt words, if_pos outside]
      rw [refused, Except.error.injEq, and_iff_left outside]
      exact eq_comm
    · rcases not_or.mp outside with ⟨ranked, within⟩
      obtain ⟨part, cut, _⟩ := exists_rows (Nat.pos_of_ne_zero ranked) (Nat.le_of_not_lt within)
      rw [cut]
      constructor
      · intro failed
        cases failed
      · intro refused
        exact absurd refused.2 outside
  · intro ranked within
    obtain ⟨part, cut, placed⟩ := exists_rows ranked within
    refine ⟨part, cut, placed.dtype, placed.shape, placed.elements_eq, ?_⟩
    intro strings
    obtain ⟨pieces, _, _, data, elements⟩ :=
      part.exists_strings_of_string (placed.dtype.trans strings)
    exact ⟨pieces, elements, data⟩

/-- Of three words the last two are cut out with their terminators; there are no two behind them. -/
theorem cuts_out_words :
    (∃ part, Sample.wordStack.rows 1 2 = .ok part ∧ part.shape = [2, 1] ∧
      part.elements = [.text [98, 99], .text []] ∧
      ∃ pieces : List Bytes, part.elements = pieces.map .text ∧
        part.data = pieces.flatMap (· ++ [terminator])) ∧
    Sample.wordStack.rows 2 2 = .error (.tensor .rowsOutOfBounds) := by
  have elements : Sample.wordStack.elements = [.text [97], .text [98, 99], .text []] := by cbv
  obtain ⟨_, found⟩ := cuts_out_rows Sample.wordStack 1 2 (by decide)
  obtain ⟨part, cut, _, shape, held, strings⟩ := found (by decide) (by decide)
  rw [elements] at held
  constructor
  · exact ⟨part, cut, shape, held, strings rfl⟩
  · apply ((cuts_out_rows Sample.wordStack 2 2 (by decide)).1 _).mpr
    exact ⟨rfl, Or.inr (by decide)⟩

end Tensor

end InferenceStore
