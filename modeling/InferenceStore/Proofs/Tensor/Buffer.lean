import InferenceStore.Tensor.Element

/-
Buffers as sequences of elements. A buffer that holds some elements followed by one that holds
more holds them all, and the elements lie in it where they lay before. A string is as long as it
is, so where an element starts is found by what stands before it and not by its number.
-/

namespace InferenceStore

/-! ### Shapes -/

namespace Shape

def extend (count dimension : Nat) : Option Nat :=
  if dimension < wordLimit ∧ count * dimension < wordLimit then some (count * dimension) else none

theorem elementCount?_eq (shape : List Nat) : elementCount? shape = shape.foldlM extend 1 := rfl

private theorem product_of_extend {shape : List Nat} {start count : Nat}
    (counted : shape.foldlM extend start = some count) : count = start * sizeProduct shape := by
  induction shape generalizing start with
  | nil =>
      cases counted
      exact (Nat.mul_one _).symm
  | cons dimension rest ih =>
      rw [List.foldlM_cons] at counted
      obtain ⟨next, extended, onward⟩ := Option.bind_eq_some_iff.mp counted
      unfold extend at extended
      split at extended
      · cases extended
        rw [ih onward, sizeProduct, Nat.mul_assoc]
      · cases extended

private theorem words_of_extend {shape : List Nat} {start count : Nat}
    (counted : shape.foldlM extend start = some count) :
    ∀ dimension ∈ shape, dimension < wordLimit := by
  induction shape generalizing start with
  | nil => exact fun _ member => (List.not_mem_nil member).elim
  | cons dimension rest ih =>
      rw [List.foldlM_cons] at counted
      obtain ⟨next, extended, onward⟩ := Option.bind_eq_some_iff.mp counted
      unfold extend at extended
      split at extended
      · rename_i words
        exact List.forall_mem_cons.mpr ⟨words.1, ih onward⟩
      · cases extended

theorem sizeProduct_pos {shape : List Nat} (positive : ∀ dimension ∈ shape, 0 < dimension) :
    0 < sizeProduct shape := by
  induction shape with
  | nil => exact Nat.one_pos
  | cons dimension rest ih =>
      exact Nat.mul_pos (positive dimension (List.mem_cons_self ..))
        (ih fun other member => positive other (List.mem_cons_of_mem _ member))

private theorem extend_of_positive {shape : List Nat} {start : Nat} (room : 0 < start)
    (positive : ∀ dimension ∈ shape, 0 < dimension)
    (small : start * sizeProduct shape < wordLimit) :
    shape.foldlM extend start = some (start * sizeProduct shape) := by
  induction shape generalizing start with
  | nil => simp [sizeProduct]
  | cons dimension rest ih =>
      rw [sizeProduct, ← Nat.mul_assoc] at small ⊢
      have others : ∀ other ∈ rest, 0 < other :=
        fun other member => positive other (List.mem_cons_of_mem _ member)
      have first : start * dimension < wordLimit :=
        Nat.lt_of_le_of_lt (Nat.le_mul_of_pos_right _ (sizeProduct_pos others)) small
      have alone : dimension < wordLimit :=
        Nat.lt_of_le_of_lt (Nat.le_mul_of_pos_left _ room) first
      rw [List.foldlM_cons, extend, if_pos ⟨alone, first⟩]
      exact ih (Nat.mul_pos room (positive dimension (List.mem_cons_self ..))) others small

theorem elementCount?_eq_some {shape : List Nat} {count : Nat}
    (counted : elementCount? shape = some count) : count = sizeProduct shape := by
  have product := product_of_extend (elementCount?_eq shape ▸ counted)
  rwa [Nat.one_mul] at product

theorem dimensions_lt {shape : List Nat} {count : Nat}
    (counted : elementCount? shape = some count) : ∀ dimension ∈ shape, dimension < wordLimit :=
  words_of_extend (elementCount?_eq shape ▸ counted)

theorem elementCount?_of_positive {shape : List Nat}
    (positive : ∀ dimension ∈ shape, 0 < dimension) (small : sizeProduct shape < wordLimit) :
    elementCount? shape = some (sizeProduct shape) := by
  have counted := extend_of_positive Nat.one_pos positive (by rwa [Nat.one_mul])
  rwa [Nat.one_mul] at counted

end Shape

/-! ### Buffers of elements -/

/-- A buffer of `count` elements: as many bytes as they take, or as many strings, none cut off. -/
def Holds (dtype : DType) (count : Nat) (data : Bytes) : Prop :=
  match dtype.width? with
  | some width => data.length = count * width
  | none => terminatorCount data = count ∧ isTerminated data = true

theorem DType.width_pos {dtype : DType} {width : Nat} (fixed : dtype.width? = some width) :
    0 < width := by
  cases dtype <;> cases fixed <;> decide

private theorem isTerminated_append {x y : Bytes} (first : isTerminated x = true)
    (second : isTerminated y = true) : isTerminated (x ++ y) = true := by
  unfold isTerminated at *
  rw [List.getLast?_append]
  cases last : y.getLast? with
  | none => simpa [last] using first
  | some byte => simpa [last] using second

theorem eq_nil_of_no_terminator {data : Bytes} (unterminated : terminatorCount data = 0)
    (terminated : isTerminated data = true) : data = [] := by
  cases last : data.getLast? with
  | none => exact List.getLast?_eq_none_iff.mp last
  | some byte =>
      simp only [isTerminated, last, beq_iff_eq] at terminated
      subst terminated
      exact absurd (List.mem_of_getLast? last) (List.count_eq_zero.mp unterminated)

namespace Holds

variable {dtype : DType} {m n : Nat} {x y : Bytes}

theorem append (first : Holds dtype m x) (second : Holds dtype n y) :
    Holds dtype (m + n) (x ++ y) := by
  unfold Holds at *
  cases width : dtype.width? with
  | some width =>
      simp only [width] at first second ⊢
      rw [List.length_append, first, second, Nat.add_mul]
  | none =>
      simp only [width] at first second ⊢
      refine ⟨?_, isTerminated_append first.2 second.2⟩
      rw [terminatorCount, List.count_append]
      exact congr (congrArg _ first.1) second.1

theorem nil (dtype : DType) : Holds dtype 0 [] := by
  unfold Holds
  cases dtype.width? with
  | some width => exact (Nat.zero_mul width).symm
  | none => exact ⟨rfl, rfl⟩

theorem eq_nil (empty : Holds dtype 0 x) : x = [] := by
  unfold Holds at empty
  cases width : dtype.width? with
  | some width =>
      simp only [width, Nat.zero_mul] at empty
      exact List.eq_nil_of_length_eq_zero empty
  | none =>
      simp only [width] at empty
      exact eq_nil_of_no_terminator empty.1 empty.2

theorem count_le (held : Holds dtype m x) : m ≤ x.length := by
  unfold Holds at held
  cases width : dtype.width? with
  | some width =>
      simp only [width] at held
      rw [held]
      exact Nat.le_mul_of_pos_right _ (DType.width_pos width)
  | none =>
      simp only [width] at held
      rw [← held.1]
      exact List.count_le_length

end Holds

/-! ### Tensors -/

namespace Tensor

theorem elementCount?_shape (tensor : Tensor) :
    Shape.elementCount? tensor.shape = some tensor.size := by
  have fits := tensor.fits
  unfold FitsShape at fits
  unfold size
  cases width : tensor.dtype.width? with
  | some width =>
      simp only [width] at fits
      obtain ⟨count, counted, _⟩ := Option.bind_eq_some_iff.mp fits
      rw [counted]
      rfl
  | none =>
      simp only [width] at fits
      rw [fits.1]
      rfl

theorem size_eq (tensor : Tensor) : tensor.size = sizeProduct tensor.shape :=
  Shape.elementCount?_eq_some tensor.elementCount?_shape

theorem holds (tensor : Tensor) : Holds tensor.dtype tensor.size tensor.data := by
  have fits := tensor.fits
  have counted := tensor.elementCount?_shape
  unfold FitsShape at fits
  unfold Holds
  cases width : tensor.dtype.width? with
  | some width =>
      simp only [width] at fits ⊢
      rw [Shape.byteCount?, counted, Option.bind_some] at fits
      split at fits
      · exact (Option.some.inj fits).symm
      · cases fits
  | none =>
      simp only [width] at fits ⊢
      rw [counted] at fits
      exact ⟨(Option.some.inj fits.1).symm, fits.2⟩

theorem bytes_lt (tensor : Tensor) {width : Nat} (fixed : tensor.dtype.width? = some width) :
    tensor.size * width < wordLimit := by
  have fits := tensor.fits
  unfold FitsShape at fits
  simp only [fixed, Shape.byteCount?, tensor.elementCount?_shape, Option.bind_some] at fits
  split at fits
  · assumption
  · cases fits

theorem fits_of_holds {dtype : DType} {shape : List Nat} {count : Nat} {data : Bytes}
    (counted : Shape.elementCount? shape = some count) (held : Holds dtype count data)
    (small : ∀ width, dtype.width? = some width → count * width < wordLimit) :
    FitsShape dtype shape data := by
  unfold Holds at held
  unfold FitsShape
  cases width : dtype.width? with
  | some width =>
      simp only [width] at held ⊢
      rw [Shape.byteCount?, counted, Option.bind_some, if_pos (small _ width), held]
  | none =>
      simp only [width] at held ⊢
      exact ⟨counted.trans (congrArg some held.1.symm), held.2⟩

end Tensor

end InferenceStore
