import InferenceStore.Proofs.Tensor.Spans

/-
Stacks. A stack has the rows of its parts one after the other, so its buffer is theirs in a row.
Cutting a stack at the sizes of its parts gives the parts back, whatever their type: the rows of a
part hold as many elements as its shape says, and the buffer is cut behind as many.
-/

namespace InferenceStore

/-! ### Word-sized shapes -/

namespace Shape

private theorem small_of_extend {shape : List Nat} {start count : Nat} (small : start < wordLimit)
    (counted : shape.foldlM extend start = some count) : count < wordLimit := by
  induction shape generalizing start with
  | nil =>
      cases counted
      exact small
  | cons dimension rest ih =>
      rw [List.foldlM_cons] at counted
      obtain ⟨next, extended, onward⟩ := Option.bind_eq_some_iff.mp counted
      unfold extend at extended
      split at extended
      · rename_i words
        cases extended
        exact ih words.2 onward
      · cases extended

theorem elementCount?_lt {shape : List Nat} {count : Nat}
    (counted : elementCount? shape = some count) : count < wordLimit :=
  small_of_extend (by decide) (elementCount?_eq shape ▸ counted)

end Shape

theorem wrapWord_of_lt {value : Nat} (small : value < wordLimit) : wrapWord value = value :=
  Nat.mod_eq_of_lt small

namespace Tensor

variable {whole part : Tensor} {row : List Nat} {total : Nat}

theorem size_of_shape (shape : whole.shape = total :: row) :
    whole.size = total * sizeProduct row := by
  rw [size_eq, shape, sizeProduct]

theorem size_lt (tensor : Tensor) : tensor.size < wordLimit :=
  Shape.elementCount?_lt tensor.elementCount?_shape

theorem total_lt (shape : whole.shape = total :: row) : total < wordLimit :=
  Shape.dimensions_lt (shape ▸ whole.elementCount?_shape) total (List.mem_cons_self ..)

theorem batchSize_of_shape (shape : whole.shape = total :: row) : whole.batchSize = total := by
  rw [batchSize, shape, List.headD_cons]

/-- The place of a row among the elements does not wrap around. -/
theorem row_offset (shape : whole.shape = total :: row) {count : Nat} (within : count ≤ total) :
    wrapWord (count * whole.rowSize) = count * sizeProduct row := by
  have small : total * sizeProduct row < wordLimit := size_of_shape shape ▸ whole.size_lt
  have rowSize : whole.rowSize = wrapWord (sizeProduct row) := by
    rw [Tensor.rowSize, shape, List.drop_succ_cons, List.drop_zero]
  cases total with
  | zero =>
      have noRows : count = 0 := Nat.le_zero.mp within
      rw [noRows, Nat.zero_mul, Nat.zero_mul]
      rfl
  | succ others =>
      have rowSmall : sizeProduct row < wordLimit :=
        Nat.lt_of_le_of_lt (Nat.le_mul_of_pos_left _ (Nat.succ_pos others)) small
      have counted : count * sizeProduct row < wordLimit :=
        Nat.lt_of_le_of_lt (Nat.mul_le_mul_right _ within) small
      rw [rowSize, wrapWord_of_lt rowSmall, wrapWord_of_lt counted]

instance : Inhabited Tensor := ⟨⟨.int8, [0], [], by decide⟩⟩

theorem ofData_self (tensor : Tensor) :
    ofData tensor.dtype tensor.shape tensor.data = .ok tensor :=
  dif_pos tensor.fits

theorem rows_eq {offset count : Nat} {front back : Bytes} (shape : whole.shape = total :: row)
    (partShape : part.shape = count :: row) (dtype : part.dtype = whole.dtype)
    (data : whole.data = front ++ (part.data ++ back))
    (before : Holds whole.dtype (offset * sizeProduct row) front) {rest : Nat}
    (behind : Holds whole.dtype (rest * sizeProduct row) back)
    (fills : total = offset + (count + rest)) : whole.rows offset count = .ok part := by
  have last : offset + count ≤ total := by omega
  have wrapped : wrapWord (offset + count) = offset + count :=
    wrapWord_of_lt (Nat.lt_of_le_of_lt last (total_lt shape))
  have inside : ¬ (whole.rank = 0 ∨ whole.batchSize < wrapWord (offset + count)) := by
    rw [rank, shape, batchSize_of_shape shape, wrapped, List.length_cons]
    omega
  have middle : Holds whole.dtype (count * sizeProduct row) part.data := by
    rw [← dtype, ← size_of_shape partShape]
    exact part.holds
  have size : whole.size =
      offset * sizeProduct row + (count * sizeProduct row + rest * sizeProduct row) := by
    rw [size_of_shape shape, fills, Nat.add_mul, Nat.add_mul]
  have bytes := elementBytes_eq data size before middle behind
  rw [← Nat.add_mul] at bytes
  unfold rows
  rw [if_neg inside]
  simp only [wrapped, row_offset shape last, row_offset shape (Nat.le_of_add_right_le last),
    bytes, shape, List.drop_succ_cons, List.drop_zero, ← dtype, ← partShape]
  exact part.ofData_self

end Tensor

/-! ### Stacks -/

/-- One tensor has the rows of others, in their order; `row` is the shape of one row. -/
structure IsStack (row : List Nat) (whole : Tensor) (parts : List Tensor) : Prop where
  dtype : ∀ part ∈ parts, part.dtype = whole.dtype
  shapes : ∀ part ∈ parts, part.shape = part.batchSize :: row
  shape : whole.shape = sizeSum (parts.map Tensor.batchSize) :: row
  data : whole.data = parts.flatMap Tensor.data

namespace Tensor

variable {dtype : DType} {row : List Nat} {parts : List Tensor}

theorem holds_parts (typed : ∀ part ∈ parts, part.dtype = dtype)
    (shapes : ∀ part ∈ parts, part.shape = part.batchSize :: row) :
    Holds dtype (sizeSum (parts.map batchSize) * sizeProduct row) (parts.flatMap data) := by
  induction parts with
  | nil =>
      rw [List.map_nil, sizeSum, Nat.zero_mul]
      exact Holds.nil dtype
  | cons part rest ih =>
      have first : Holds dtype (part.batchSize * sizeProduct row) part.data := by
        rw [← size_of_shape (shapes part (List.mem_cons_self ..)),
          ← typed part (List.mem_cons_self ..)]
        exact part.holds
      have others := ih (fun other member => typed other (List.mem_cons_of_mem _ member))
        fun other member => shapes other (List.mem_cons_of_mem _ member)
      rw [List.map_cons, sizeSum, Nat.add_mul, List.flatMap_cons]
      exact first.append others

private theorem cutFrom_eq {whole : Tensor} {total offset : Nat} {front : Bytes}
    (shape : whole.shape = total :: row) (typed : ∀ part ∈ parts, part.dtype = whole.dtype)
    (shapes : ∀ part ∈ parts, part.shape = part.batchSize :: row)
    (data : whole.data = front ++ parts.flatMap Tensor.data)
    (before : Holds whole.dtype (offset * sizeProduct row) front)
    (fills : total = offset + sizeSum (parts.map batchSize)) :
    whole.cutFrom offset (parts.map batchSize) = .ok parts := by
  induction parts generalizing offset front with
  | nil => rfl
  | cons part rest ih =>
      have partShape := shapes part (List.mem_cons_self ..)
      have partType := typed part (List.mem_cons_self ..)
      have restTyped : ∀ other ∈ rest, other.dtype = whole.dtype :=
        fun other member => typed other (List.mem_cons_of_mem _ member)
      have restShapes : ∀ other ∈ rest, other.shape = other.batchSize :: row :=
        fun other member => shapes other (List.mem_cons_of_mem _ member)
      rw [List.map_cons, sizeSum] at fills
      rw [List.flatMap_cons] at data
      have cut : whole.rows offset part.batchSize = .ok part :=
        rows_eq shape partShape partType data before (holds_parts restTyped restShapes) fills
      have onward : wrapWord (offset + part.batchSize) = offset + part.batchSize := by
        have bound := total_lt shape
        exact wrapWord_of_lt (by omega)
      have passed : Holds whole.dtype ((offset + part.batchSize) * sizeProduct row)
          (front ++ part.data) := by
        rw [Nat.add_mul, ← size_of_shape partShape]
        exact before.append (partType ▸ part.holds)
      have later := ih restTyped restShapes (by rw [data, List.append_assoc]) passed (by omega)
      rw [List.map_cons, cutFrom, cut, onward, later]
      rfl

end Tensor

namespace IsStack

variable {row : List Nat} {whole : Tensor} {parts : List Tensor}

/-- A stack cut at the sizes of its parts gives the parts back. -/
theorem split (stacked : IsStack row whole parts) :
    whole.split (parts.map Tensor.batchSize) = .ok parts := by
  have total : wordSum (parts.map Tensor.batchSize) = whole.batchSize := by
    rw [wordSum, wrapWord_of_lt (Tensor.total_lt stacked.shape),
      Tensor.batchSize_of_shape stacked.shape]
  have fits : ¬ (whole.rank = 0 ∨ whole.batchSize ≠ wordSum (parts.map Tensor.batchSize)) := by
    rw [Tensor.rank, stacked.shape, total, List.length_cons]
    omega
  rw [Tensor.split, if_neg fits]
  have start : Holds whole.dtype (0 * sizeProduct row) [] := by
    rw [Nat.zero_mul]
    exact Holds.nil whole.dtype
  exact Tensor.cutFrom_eq stacked.shape stacked.dtype stacked.shapes stacked.data start
    (Nat.zero_add _).symm

private theorem rawElements_parts {dtype : DType} (typed : ∀ part ∈ parts, part.dtype = dtype)
    (shapes : ∀ part ∈ parts, part.shape = part.batchSize :: row) :
    rawElements dtype (sizeSum (parts.map Tensor.batchSize) * sizeProduct row)
        (parts.flatMap Tensor.data) =
      parts.flatMap fun part => rawElements part.dtype part.size part.data := by
  induction parts with
  | nil =>
      rw [List.map_nil, sizeSum, Nat.zero_mul, List.flatMap_nil, List.flatMap_nil]
      exact List.eq_nil_of_length_eq_zero (by
        rw [rawElements, List.length_map, (Holds.nil dtype).length_spans])
  | cons part rest ih =>
      have partType := typed part (List.mem_cons_self ..)
      have partSize := Tensor.size_of_shape (shapes part (List.mem_cons_self ..))
      have others := ih (fun other member => typed other (List.mem_cons_of_mem _ member))
        fun other member => shapes other (List.mem_cons_of_mem _ member)
      have first : Holds dtype (part.batchSize * sizeProduct row) part.data := by
        rw [← partType, ← partSize]
        exact part.holds
      rw [List.map_cons, sizeSum, Nat.add_mul, List.flatMap_cons, List.flatMap_cons,
        first.raw_append, others, partSize, partType]

theorem rawElements_eq (stacked : IsStack row whole parts) :
    rawElements whole.dtype whole.size whole.data =
      parts.flatMap fun part => rawElements part.dtype part.size part.data := by
  rw [Tensor.size_of_shape stacked.shape, stacked.data]
  exact rawElements_parts stacked.dtype stacked.shapes

end IsStack

/-! ### Making stacks -/

namespace Tensor

section

variable {a b c : Tensor}

theorem stackable_iff : a.stackable b = true ↔
    a.dtype = b.dtype ∧ a.rank = b.rank ∧ 0 < a.rank ∧ a.shape.drop 1 = b.shape.drop 1 := by
  simp [stackable, and_assoc]

theorem stackable_symm (compatible : a.stackable b = true) : b.stackable a = true := by
  obtain ⟨dtype, rank, positive, rows⟩ := stackable_iff.mp compatible
  exact stackable_iff.mpr ⟨dtype.symm, rank.symm, rank ▸ positive, rows.symm⟩

theorem stackable_trans (first : a.stackable b = true) (second : b.stackable c = true) :
    a.stackable c = true := by
  obtain ⟨dtype, rank, positive, rows⟩ := stackable_iff.mp first
  obtain ⟨dtype', rank', _, rows'⟩ := stackable_iff.mp second
  exact stackable_iff.mpr ⟨dtype.trans dtype', rank.trans rank', positive, rows.trans rows'⟩

end

theorem shape_of_rank {tensor : Tensor} (rank : 0 < tensor.rank) :
    tensor.shape = tensor.batchSize :: tensor.shape.drop 1 := by
  unfold Tensor.rank at rank
  unfold batchSize
  cases shape : tensor.shape with
  | nil => simp [shape] at rank
  | cons first rest => rfl

theorem alike_of_stackable {first : Tensor} {rest : List Tensor} (rank : 0 < first.rank)
    (compatible : ∀ part ∈ rest, first.stackable part = true) :
    ∀ part ∈ first :: rest, part.dtype = first.dtype ∧
      part.shape = part.batchSize :: first.shape.drop 1 := by
  intro part member
  rcases List.mem_cons.mp member with same | inRest
  · rw [same]
    exact ⟨rfl, shape_of_rank rank⟩
  · obtain ⟨dtype, ranks, _, rows⟩ := stackable_iff.mp (compatible part inRest)
    refine ⟨dtype.symm, ?_⟩
    rw [rows]
    exact shape_of_rank (ranks ▸ rank)

theorem all_stackable {first : Tensor} {rest : List Tensor} (rank : 0 < first.rank)
    (compatible : ∀ part ∈ rest, first.stackable part = true) :
    (first :: rest).all (first.stackable ·) = true := by
  refine List.all_eq_true.mpr fun part member => ?_
  rcases List.mem_cons.mp member with same | inRest
  · rw [same]
    simp [stackable, rank]
  · exact compatible part inRest

theorem exists_stack {first : Tensor} {rest : List Tensor} (rank : 0 < first.rank)
    (compatible : ∀ part ∈ rest, first.stackable part = true)
    (positive : ∀ dimension ∈ first.shape.drop 1, 0 < dimension)
    (occupied : 0 < first.batchSize)
    (small : ((first :: rest).flatMap data).length < wordLimit) :
    ∃ whole, stack (first :: rest) = .ok whole ∧
      IsStack (first.shape.drop 1) whole (first :: rest) := by
  have alike := alike_of_stackable rank compatible
  have typed : ∀ part ∈ first :: rest, part.dtype = first.dtype :=
    fun part member => (alike part member).1
  have shapes : ∀ part ∈ first :: rest, part.shape = part.batchSize :: first.shape.drop 1 :=
    fun part member => (alike part member).2
  cases rest with
  | nil =>
      refine ⟨first, rfl, ⟨typed, shapes, ?_, ?_⟩⟩
      · rw [List.map_singleton, sizeSum, sizeSum, Nat.add_zero]
        exact shape_of_rank rank
      · rw [List.flatMap_singleton]
  | cons second others =>
      have held := holds_parts typed shapes
      have count := Nat.lt_of_le_of_lt held.count_le small
      have solid : 0 < sizeSum ((first :: second :: others).map batchSize) :=
        Nat.lt_of_lt_of_le occupied (Nat.le_add_right ..)
      have total : wordSum ((first :: second :: others).map batchSize) =
          sizeSum ((first :: second :: others).map batchSize) :=
        wrapWord_of_lt (Nat.lt_of_le_of_lt
          (Nat.le_mul_of_pos_right _ (Shape.sizeProduct_pos positive)) count)
      have counted : Shape.elementCount?
          (sizeSum ((first :: second :: others).map batchSize) :: first.shape.drop 1) =
            some (sizeSum ((first :: second :: others).map batchSize) *
              sizeProduct (first.shape.drop 1)) :=
        Shape.elementCount?_of_positive (List.forall_mem_cons.mpr ⟨solid, positive⟩) count
      have fits := fits_of_holds counted held fun width fixed => by
        simp only [Holds, fixed] at held
        exact held ▸ small
      refine ⟨⟨_, _, _, fits⟩, ?_, ⟨typed, shapes, rfl, rfl⟩⟩
      rw [stack, if_pos (all_stackable rank compatible), total]
      · exact dif_pos fits
      · exact List.cons_ne_nil _ _

end Tensor

end InferenceStore
