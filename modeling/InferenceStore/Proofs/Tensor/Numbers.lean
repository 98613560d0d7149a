import InferenceStore.Proofs.Tensor.Stack
import Mathlib.Data.List.Basic

/-
Tensors as numbers. Every element of a numeric type is a number and every number can be cast to
one, in as many bytes as the type takes. The numbers of a stack are those of its parts, and a
tensor of a numeric type can be refilled with any numbers, one for each element.
-/

namespace InferenceStore

open Number

theorem mapM_eq_filterMap {α β : Type} {f : α → Option β} {items : List α}
    (total : ∀ item ∈ items, ∃ value, f item = some value) :
    items.mapM f = some (items.filterMap f) := by
  induction items with
  | nil => rfl
  | cons item rest ih =>
      obtain ⟨value, found⟩ := total item (List.mem_cons_self ..)
      have others := ih fun other member => total other (List.mem_cons_of_mem _ member)
      rw [List.mapM_cons, List.filterMap_cons_some found, found, others]
      rfl

namespace DType

variable {dtype : DType}

theorem width_of_numeric (numeric : dtype ≠ .string) : ∃ width, dtype.width? = some width := by
  cases dtype <;> first | exact ⟨_, rfl⟩ | exact absurd rfl numeric

theorem readNumber?_of_numeric (numeric : dtype ≠ .string) (raw : Bytes) :
    ∃ number, dtype.readNumber? raw = some number := by
  cases dtype <;> first | exact ⟨_, rfl⟩ | exact absurd rfl numeric

def cast (dtype : DType) (value : Binary64) : Bytes := (dtype.castReal? value).getD []

theorem castReal?_of_numeric (numeric : dtype ≠ .string) (value : Binary64) :
    dtype.castReal? value = some (dtype.cast value) := by
  cases dtype <;> first | rfl | exact absurd rfl numeric

theorem length_cast {width : Nat} (fixed : dtype.width? = some width) (value : Binary64) :
    (dtype.cast value).length = width := by
  cases dtype <;> cases fixed <;> exact Bytes.length_ofWord ..

theorem length_casts {width : Nat} (fixed : dtype.width? = some width) (values : List Binary64) :
    (values.flatMap dtype.cast).length = values.length * width := by
  induction values with
  | nil => exact (Nat.zero_mul width).symm
  | cons value rest ih =>
      rw [List.flatMap_cons, List.length_append, ih, length_cast fixed, List.length_cons,
        Nat.succ_mul, Nat.add_comm]

end DType

namespace Tensor

variable {tensor : Tensor}

def numbers (tensor : Tensor) : List Binary64 :=
  (rawElements tensor.dtype tensor.size tensor.data).filterMap tensor.dtype.readNumber?

theorem numbers?_of_string (strings : tensor.dtype = .string) : tensor.numbers? = none :=
  if_pos strings

theorem numbers?_of_numeric (numeric : tensor.dtype ≠ .string) :
    tensor.numbers? = some tensor.numbers := by
  have total : ∀ span ∈ tensor.spans,
      ∃ number, tensor.dtype.readNumber? (span.slice tensor.data) = some number :=
    fun span _ => DType.readNumber?_of_numeric numeric _
  rw [numbers?, if_neg numeric, mapM_eq_filterMap total, numbers, rawElements,
    List.filterMap_map]
  rfl

theorem length_numbers (numeric : tensor.dtype ≠ .string) :
    tensor.numbers.length = tensor.size := by
  have whole (raws : List Bytes) :
      (raws.filterMap tensor.dtype.readNumber?).length = raws.length := by
    induction raws with
    | nil => rfl
    | cons raw rest ih =>
        obtain ⟨number, read⟩ := DType.readNumber?_of_numeric numeric raw
        rw [List.filterMap_cons_some read, List.length_cons, ih, List.length_cons]
  rw [numbers, whole, rawElements, List.length_map, tensor.holds.length_spans]

theorem exists_ofNumbers (numeric : tensor.dtype ≠ .string) {values : List Binary64}
    (count : values.length = tensor.size) :
    ∃ made, ofNumbers tensor.dtype tensor.shape values = .ok made ∧ made.dtype = tensor.dtype ∧
      made.shape = tensor.shape ∧ made.data = values.flatMap tensor.dtype.cast := by
  obtain ⟨width, fixed⟩ := DType.width_of_numeric numeric
  have fits : FitsShape tensor.dtype tensor.shape (values.flatMap tensor.dtype.cast) := by
    have own := tensor.fits
    have held := tensor.holds
    unfold FitsShape at own ⊢
    unfold Holds at held
    simp only [fixed] at own held ⊢
    rw [own, DType.length_casts fixed, count, held]
  have total : ∀ value ∈ values, ∃ bytes, tensor.dtype.castReal? value = some bytes :=
    fun value _ => ⟨_, DType.castReal?_of_numeric numeric value⟩
  have casts : values.filterMap tensor.dtype.castReal? = values.map tensor.dtype.cast := by
    rw [← List.filterMap_eq_map]
    exact congrArg (List.filterMap · values)
      (funext fun value => DType.castReal?_of_numeric numeric value)
  refine ⟨⟨_, _, _, fits⟩, ?_, rfl, rfl, rfl⟩
  rw [ofNumbers, mapM_eq_filterMap total, casts]
  simp only [← List.flatMap_def]
  exact dif_pos fits

end Tensor

theorem IsStack.numbers_eq {row : List Nat} {whole : Tensor} {parts : List Tensor}
    (stacked : IsStack row whole parts) : whole.numbers = parts.flatMap Tensor.numbers := by
  rw [Tensor.numbers, stacked.rawElements_eq, List.filterMap_flatMap]
  apply List.flatMap_congr
  intro part member
  rw [Tensor.numbers, stacked.dtype part member]

end InferenceStore
