import InferenceStore.Proofs.Tensor.Stack

/-
Cutting undoes stacking, and stacking undoes cutting. A buffer of whole elements can be cut behind
any number of them, whatever their type, and what lies between two cuts is a buffer of its own: no
dimension of a part is larger than that of the whole, so its shape passes the same checks. Parts of
no rows and rows of no elements are parts like others.
-/

namespace InferenceStore

/-! ### Cutting buffers -/

theorem isTerminated_cons (byte : UInt8) {data : Bytes} (nonempty : data ≠ []) :
    isTerminated (byte :: data) = isTerminated data := by
  cases data with
  | nil => exact absurd rfl nonempty
  | cons next rest => rfl

/-- Strings are cut behind a terminator. -/
theorem exists_strings (m n : Nat) (data : Bytes) (count : terminatorCount data = m + n)
    (terminated : isTerminated data = true) :
    ∃ front back, data = front ++ back ∧
      (terminatorCount front = m ∧ isTerminated front = true) ∧
      (terminatorCount back = n ∧ isTerminated back = true) := by
  induction data generalizing m with
  | nil =>
      have zero : 0 = m + n := count
      exact ⟨[], [], rfl, ⟨by omega, rfl⟩, ⟨by omega, rfl⟩⟩
  | cons byte rest ih =>
      cases m with
      | zero => exact ⟨[], byte :: rest, rfl, ⟨rfl, rfl⟩, ⟨by omega, terminated⟩⟩
      | succ m =>
          have later := isTerminated_rest terminated
          by_cases ends : byte = terminator
          · have fewer : terminatorCount rest = m + n := by
              rw [ends, terminatorCount, List.count_cons_self] at count
              unfold terminatorCount
              omega
            obtain ⟨front, back, rfl, ⟨inFront, whole⟩, others⟩ := ih m fewer later
            refine ⟨byte :: front, back, rfl, ⟨?_, ?_⟩, others⟩
            · rw [ends, terminatorCount, List.count_cons_self]
              exact congrArg (· + 1) inFront
            · cases front with
              | nil => simp [isTerminated, ends]
              | cons next more => rwa [isTerminated_cons byte (List.cons_ne_nil _ _)]
          · have same : terminatorCount rest = m + 1 + n := by
              rwa [terminatorCount, List.count_cons_of_ne ends] at count
            obtain ⟨front, back, rfl, ⟨inFront, whole⟩, others⟩ := ih (m + 1) same later
            have filled : front ≠ [] := by
              rintro rfl
              cases inFront
            refine ⟨byte :: front, back, rfl, ⟨?_, ?_⟩, others⟩
            · rwa [terminatorCount, List.count_cons_of_ne ends]
            · rwa [isTerminated_cons byte filled]

namespace Holds

variable {dtype : DType} {m n : Nat} {data : Bytes}

theorem exists_cut (held : Holds dtype (m + n) data) :
    ∃ front back, data = front ++ back ∧ Holds dtype m front ∧ Holds dtype n back := by
  unfold Holds at held ⊢
  cases fixed : dtype.width? with
  | some width =>
      simp only [fixed] at held ⊢
      refine ⟨data.take (m * width), data.drop (m * width), (List.take_append_drop ..).symm, ?_, ?_⟩
      · rw [List.length_take, held, Nat.add_mul]
        omega
      · rw [List.length_drop, held, Nat.add_mul]
        omega
  | none =>
      simp only [fixed] at held ⊢
      exact exists_strings m n data held.1 held.2

end Holds

/-! ### Cutting tensors -/

namespace Shape

theorem foldlM_extend_of_le {shape : List Nat} {less more count : Nat} (smaller : less ≤ more)
    (counted : shape.foldlM extend more = some count) :
    shape.foldlM extend less = some (less * sizeProduct shape) := by
  induction shape generalizing less more with
  | nil => rw [sizeProduct, Nat.mul_one]; rfl
  | cons dimension rest ih =>
      rw [List.foldlM_cons] at counted ⊢
      obtain ⟨next, extended, onward⟩ := Option.bind_eq_some_iff.mp counted
      unfold extend at extended
      split at extended
      · rename_i words
        cases extended
        have scaled : less * dimension ≤ more * dimension := Nat.mul_le_mul_right _ smaller
        have word : less * dimension < wordLimit := Nat.lt_of_le_of_lt scaled words.2
        rw [extend, if_pos ⟨words.1, word⟩, sizeProduct, ← Nat.mul_assoc]
        exact ih scaled onward
      · cases extended

theorem elementCount?_of_fewer {row : List Nat} {total size count : Nat} (fewer : size ≤ total)
    (counted : elementCount? (total :: row) = some count) :
    elementCount? (size :: row) = some (size * sizeProduct row) := by
  rw [elementCount?_eq, List.foldlM_cons] at counted ⊢
  obtain ⟨next, extended, onward⟩ := Option.bind_eq_some_iff.mp counted
  unfold extend at extended
  split at extended
  · cases extended
    have start : extend 1 size = some (1 * size) := if_pos (by omega)
    rw [start, Option.bind_eq_bind, Option.bind_some]
    rw [foldlM_extend_of_le (Nat.mul_le_mul_left 1 fewer) onward, Nat.one_mul]
  · cases extended

end Shape

namespace Tensor

variable {whole : Tensor} {row : List Nat} {total : Nat}

theorem fits_of_fewer {size : Nat} {data : Bytes} (shape : whole.shape = total :: row)
    (fewer : size ≤ total) (held : Holds whole.dtype (size * sizeProduct row) data) :
    FitsShape whole.dtype (size :: row) data := by
  have counted := Shape.elementCount?_of_fewer fewer (shape ▸ whole.elementCount?_shape)
  refine fits_of_holds counted held fun width fixed => ?_
  have bytes := whole.bytes_lt fixed
  rw [size_of_shape shape] at bytes
  have scaled := Nat.mul_le_mul_right width (Nat.mul_le_mul_right (sizeProduct row) fewer)
  omega

/-- Elements of a tensor's type and rows are cut into parts of any sizes that add up. -/
private theorem exists_parts_of_holds (shape : whole.shape = total :: row) (sizes : List Nat)
    (data : Bytes) (fewer : sizeSum sizes ≤ total)
    (held : Holds whole.dtype (sizeSum sizes * sizeProduct row) data) :
    ∃ parts : List Tensor, (∀ part ∈ parts, part.dtype = whole.dtype) ∧
      (∀ part ∈ parts, part.shape = part.batchSize :: row) ∧
      parts.map batchSize = sizes ∧ data = parts.flatMap Tensor.data := by
  induction sizes generalizing data with
  | nil =>
      rw [sizeSum, Nat.zero_mul] at held
      exact ⟨[], List.forall_mem_nil _, List.forall_mem_nil _, rfl, held.eq_nil⟩
  | cons size rest ih =>
      rw [sizeSum] at fewer
      rw [sizeSum, Nat.add_mul] at held
      obtain ⟨front, back, rfl, first, others⟩ := held.exists_cut
      obtain ⟨parts, typed, shapes, sizes, rfl⟩ := ih back (by omega) others
      let part : Tensor := ⟨whole.dtype, size :: row, front, fits_of_fewer shape (by omega) first⟩
      refine ⟨part :: parts, ?_, ?_, ?_, ?_⟩
      · exact List.forall_mem_cons.mpr ⟨rfl, typed⟩
      · exact List.forall_mem_cons.mpr ⟨rfl, shapes⟩
      · exact congrArg (size :: ·) sizes
      · rfl

theorem exists_parts (whole : Tensor) (sizes : List Nat) (rank : 0 < whole.rank)
    (fills : sizeSum sizes = whole.batchSize) :
    ∃ parts, IsStack (whole.shape.drop 1) whole parts ∧ parts.map batchSize = sizes := by
  have shape := shape_of_rank rank
  have held := whole.holds
  rw [size_of_shape shape, ← fills] at held
  obtain ⟨parts, typed, shapes, same, data⟩ :=
    exists_parts_of_holds shape sizes whole.data (Nat.le_of_eq fills) held
  exact ⟨parts, ⟨typed, shapes, by rw [same, fills]; exact shape, data⟩, same⟩

/-! ### Stacking -/

theorem eq_of_same {a b : Tensor} (dtype : a.dtype = b.dtype) (shape : a.shape = b.shape)
    (data : a.data = b.data) : a = b := by
  cases a
  cases b
  cases dtype
  cases shape
  cases data
  rfl

theorem same_of_ofData {dtype : DType} {shape : List Nat} {data : Bytes} {tensor : Tensor}
    (made : ofData dtype shape data = .ok tensor) :
    tensor.dtype = dtype ∧ tensor.shape = shape ∧ tensor.data = data := by
  unfold ofData at made
  split at made
  · cases made
    exact ⟨rfl, rfl, rfl⟩
  · split at made <;> cases made

/-- What is made of tensors that stack has their rows, as long as these are counted by a word. -/
theorem isStack_of_stack {first : Tensor} {rest : List Tensor} (rank : 0 < first.rank)
    (compatible : ∀ part ∈ rest, first.stackable part = true)
    (small : sizeSum ((first :: rest).map batchSize) < wordLimit)
    (made : stack (first :: rest) = .ok whole) :
    IsStack (first.shape.drop 1) whole (first :: rest) := by
  have alike := alike_of_stackable rank compatible
  have same : whole.dtype = first.dtype ∧
      whole.shape = sizeSum ((first :: rest).map batchSize) :: first.shape.drop 1 ∧
      whole.data = (first :: rest).flatMap Tensor.data := by
    cases rest with
    | nil =>
        cases made
        refine ⟨rfl, ?_, (List.flatMap_singleton ..).symm⟩
        rw [List.map_singleton, sizeSum, sizeSum, Nat.add_zero]
        exact shape_of_rank rank
    | cons second others =>
        rw [stack, if_pos (all_stackable rank compatible), wordSum, wrapWord_of_lt small] at made
        · exact same_of_ofData made
        · exact List.cons_ne_nil _ _
  exact
    { dtype := fun part member => (alike part member).1.trans same.1.symm
      shapes := fun part member => (alike part member).2
      shape := same.2.1
      data := same.2.2 }

theorem shapeFits_iff {dtype : DType} {shape : List Nat} :
    shapeFits dtype shape = true ↔ ∃ count, Shape.elementCount? shape = some count ∧
      ∀ width, dtype.width? = some width → count * width < wordLimit := by
  unfold shapeFits
  cases dtype.width? with
  | none => simp [Option.isSome_iff_exists]
  | some width => cases counted : Shape.elementCount? shape <;> simp [Shape.byteCount?, counted]

theorem shapeFits_of_fewer {dtype : DType} {row : List Nat} {total size : Nat}
    (fewer : size ≤ total) (fits : shapeFits dtype (total :: row) = true) :
    shapeFits dtype (size :: row) = true := by
  obtain ⟨count, counted, bytes⟩ := shapeFits_iff.mp fits
  obtain rfl := Shape.elementCount?_eq_some counted
  refine shapeFits_iff.mpr ⟨_, Shape.elementCount?_of_fewer fewer counted, fun width fixed => ?_⟩
  have scaled := Nat.mul_le_mul_right width (Nat.mul_le_mul_right (sizeProduct row) fewer)
  exact Nat.lt_of_le_of_lt scaled (bytes width fixed)

theorem exists_stack_of_shapeFits {first : Tensor} {rest : List Tensor} (rank : 0 < first.rank)
    (compatible : ∀ part ∈ rest, first.stackable part = true)
    (small : sizeSum ((first :: rest).map batchSize) < wordLimit)
    (fits : shapeFits first.dtype
      (sizeSum ((first :: rest).map batchSize) :: first.shape.drop 1) = true) :
    ∃ whole, stack (first :: rest) = .ok whole ∧
      IsStack (first.shape.drop 1) whole (first :: rest) := by
  have alike := alike_of_stackable rank compatible
  have held := holds_parts (fun part member => (alike part member).1)
    fun part member => (alike part member).2
  obtain ⟨count, counted, bytes⟩ := shapeFits_iff.mp fits
  obtain rfl := Shape.elementCount?_eq_some counted
  have made : ∃ whole, stack (first :: rest) = .ok whole := by
    cases rest with
    | nil => exact ⟨first, rfl⟩
    | cons second others =>
        refine ⟨⟨_, _, _, fits_of_holds counted held bytes⟩, ?_⟩
        rw [stack, if_pos (all_stackable rank compatible), wordSum, wrapWord_of_lt small]
        · exact dif_pos _
        · exact List.cons_ne_nil _ _
  obtain ⟨whole, made⟩ := made
  exact ⟨whole, made, isStack_of_stack rank compatible small made⟩

end Tensor

namespace IsStack

variable {row : List Nat} {whole first : Tensor} {parts rest : List Tensor}

theorem drop_shape (stacked : IsStack row whole parts) {part : Tensor} (member : part ∈ parts) :
    part.shape.drop 1 = row := by
  rw [stacked.shapes part member, List.drop_succ_cons, List.drop_zero]

theorem all_stackable (stacked : IsStack row whole (first :: rest)) :
    (first :: rest).all (first.stackable ·) = true := by
  have here : first ∈ first :: rest := List.mem_cons_self ..
  refine List.all_eq_true.mpr fun part member => Tensor.stackable_iff.mpr ⟨?_, ?_, ?_, ?_⟩
  · rw [stacked.dtype first here, stacked.dtype part member]
  · rw [Tensor.rank, Tensor.rank, stacked.shapes first here, stacked.shapes part member,
      List.length_cons, List.length_cons]
  · rw [Tensor.rank, stacked.shapes first here, List.length_cons]
    exact Nat.succ_pos _
  · rw [stacked.drop_shape here, stacked.drop_shape member]

/-- The parts of a stack make it up again. -/
theorem stack (stacked : IsStack row whole parts) (nonempty : parts ≠ []) :
    Tensor.stack parts = .ok whole := by
  cases parts with
  | nil => exact absurd rfl nonempty
  | cons first rest =>
      have here : first ∈ first :: rest := List.mem_cons_self ..
      cases rest with
      | nil =>
          have shape := stacked.shape
          have data := stacked.data
          rw [List.map_singleton, sizeSum, sizeSum, Nat.add_zero, ← stacked.shapes first here]
            at shape
          rw [List.flatMap_singleton] at data
          exact congrArg Except.ok
            (Tensor.eq_of_same (stacked.dtype first here) shape.symm data.symm)
      | cons second others =>
          rw [Tensor.stack, if_pos stacked.all_stackable, wordSum,
            wrapWord_of_lt (Tensor.total_lt stacked.shape), stacked.drop_shape here,
            ← stacked.shape, stacked.dtype first here, ← stacked.data]
          · exact whole.ofData_self
          · exact List.cons_ne_nil _ _

end IsStack

namespace Tensor

/-- A stack cut at the sizes of its parts gives the parts back, and the parts that a tensor is cut
into stack to that tensor. The dimensions behind the first may be zero or multiply to any number. -/
theorem stack_and_split_inverse :
    (∀ (parts : List Tensor) (whole : Tensor), parts ≠ [] →
      (∀ part ∈ parts, 0 < part.rank) →
      parts.Pairwise (fun a b => a.stackable b = true) →
      sizeSum (parts.map batchSize) < wordLimit →
      stack parts = .ok whole → whole.split (parts.map batchSize) = .ok parts) ∧
    ∀ (whole : Tensor) (sizes : List Nat), 0 < whole.rank → sizes ≠ [] →
      sizeSum sizes = whole.batchSize →
      ∃ parts, whole.split sizes = .ok parts ∧ stack parts = .ok whole := by
  constructor
  · intro parts whole nonempty ranks compatible small made
    cases parts with
    | nil => exact absurd rfl nonempty
    | cons first rest =>
        have stacked := isStack_of_stack (ranks first (List.mem_cons_self ..))
          (List.pairwise_cons.mp compatible).1 small made
        exact stacked.split
  · intro whole sizes rank nonempty fills
    obtain ⟨parts, stacked, rfl⟩ := exists_parts whole sizes rank fills
    refine ⟨parts, stacked.split, stacked.stack ?_⟩
    rintro rfl
    exact nonempty rfl

end Tensor

namespace Sample

def wordParts : List Tensor :=
  [⟨.string, [2, 1], [97, 0, 98, 99, 0], by decide⟩, ⟨.string, [0, 1], [], by decide⟩,
    ⟨.string, [1, 1], [0], by decide⟩]

def wordStack : Tensor := ⟨.string, [3, 1], [97, 0, 98, 99, 0, 0], by decide⟩

end Sample

/-- Strings are found again behind those of other lengths, also where there are none. -/
theorem Tensor.words_stack_and_split :
    stack Sample.wordParts = .ok Sample.wordStack ∧
      Sample.wordStack.split [2, 0, 1] = .ok Sample.wordParts ∧
      ∃ parts, Sample.wordStack.split [1, 0, 2] = .ok parts ∧
        stack parts = .ok Sample.wordStack := by
  have made : stack Sample.wordParts = .ok Sample.wordStack := by cbv
  obtain ⟨cuts, parted⟩ := stack_and_split_inverse
  exact ⟨made,
    cuts Sample.wordParts Sample.wordStack (by decide) (by decide) (by decide) (by decide) made,
    parted Sample.wordStack [1, 0, 2] (by decide) (by decide) (by decide)⟩

end InferenceStore
