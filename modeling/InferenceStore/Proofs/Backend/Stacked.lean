import InferenceStore.Backend.Arithmetic
import InferenceStore.Proofs.Tensor.Numbers
import Mathlib.Tactic.Choose

/-
Arithmetic on stacks. An operation that works element by element fails on stacks exactly where it
fails on each of the runs that are stacked, and with the same error; else its output is the stack
of what the runs give alone. `doubled` is none of these, for it has too many rows.
-/

namespace InferenceStore

/-- Inputs that are, position by position, the stacks of the inputs of several runs. -/
structure Stacked (wholes : List Tensor) (members : List (List Tensor)) : Prop where
  lengths : ∀ inputs ∈ members, inputs.length = wholes.length
  shared : ∀ inputs ∈ members, ∀ tensor ∈ inputs,
    tensor.batchSize = Tensor.sharedBatchSize inputs
  columns : ∀ (position : Nat) (whole : Tensor), wholes[position]? = some whole →
    ∃ row, IsStack row whole (members.filterMap fun inputs => inputs[position]?)

namespace Stacked

variable {wholes : List Tensor} {members : List (List Tensor)}

theorem column (stacked : Stacked wholes members) {position : Nat} {whole : Tensor}
    (placed : wholes[position]? = some whole) :
    ∃ row, IsStack row whole (members.map fun inputs => inputs.getD position whole) ∧
      ∀ inputs ∈ members, inputs.getD position whole ∈ inputs := by
  obtain ⟨row, isStack⟩ := stacked.columns position whole placed
  have within : ∀ inputs ∈ members, position < inputs.length := by
    intro inputs member
    rw [stacked.lengths inputs member]
    exact (List.getElem?_eq_some_iff.mp placed).1
  have present : members.filterMap (fun inputs => inputs[position]?) =
      members.map fun inputs => inputs.getD position whole := by
    rw [← List.filterMap_eq_map]
    apply List.filterMap_congr
    intro inputs member
    simp [List.getD, within inputs member]
  refine ⟨row, present ▸ isStack, ?_⟩
  intro inputs member
  rw [List.getD, List.getElem?_eq_getElem (within inputs member), Option.getD_some]
  exact List.getElem_mem _

end Stacked

/-- A run of stacks comes out as the runs that are stacked: all fail alike, or all give one output,
and the one of the stacks is the stack of the others. -/
def Rowwise (run : List Tensor → Outcome (List Tensor)) (wholes : List Tensor)
    (members : List (List Tensor)) : Prop :=
  (∃ cause, run wholes = .error cause ∧ ∀ inputs ∈ members, run inputs = .error cause) ∨
    ∃ (whole : Tensor) (row : List Nat) (piece : List Tensor → Tensor),
      run wholes = .ok [whole] ∧ IsStack row whole (members.map piece) ∧
        ∀ inputs ∈ members, run inputs = .ok [piece inputs] ∧
          (piece inputs).batchSize = Tensor.sharedBatchSize inputs

namespace Arithmetic

open Number

variable {operation : Binary64 → Binary64 → Binary64} {a b : Tensor}

theorem elementwise_of_string (strings : a.dtype = .string) (others : List Tensor) :
    elementwise operation (a :: others) = .error (refused "numeric input expected") := by
  simp only [elementwise, Tensor.numbers?_of_string strings]

theorem elementwise_of_shapes (numeric : a.dtype ≠ .string) (different : b.shape ≠ a.shape) :
    elementwise operation [a, b] =
      .error (refused "Incompatible shapes for elementwise op") := by
  simp only [elementwise, Tensor.numbers?_of_numeric numeric, List.foldlM_cons, combine,
    if_pos different]
  rfl

theorem elementwise_of_second_string (numeric : a.dtype ≠ .string) (same : b.shape = a.shape)
    (strings : b.dtype = .string) :
    elementwise operation [a, b] = .error (refused "numeric input expected") := by
  simp only [elementwise, Tensor.numbers?_of_numeric numeric, List.foldlM_cons, combine,
    if_neg (not_not_intro same), Tensor.numbers?_of_string strings]
  rfl

structure Combined (operation : Binary64 → Binary64 → Binary64) (a b made : Tensor) : Prop where
  dtype : made.dtype = a.dtype
  shape : made.shape = a.shape
  data : made.data = (List.zipWith operation a.numbers b.numbers).flatMap a.dtype.cast

theorem length_numbers_eq (numeric : a.dtype ≠ .string) (same : b.shape = a.shape)
    (numericToo : b.dtype ≠ .string) : a.numbers.length = b.numbers.length := by
  rw [Tensor.length_numbers numeric, Tensor.length_numbers numericToo, Tensor.size_eq,
    Tensor.size_eq, same]

theorem exists_elementwise (operation : Binary64 → Binary64 → Binary64)
    (numeric : a.dtype ≠ .string) (same : b.shape = a.shape) (numericToo : b.dtype ≠ .string) :
    ∃ made, elementwise operation [a, b] = .ok made ∧ Combined operation a b made := by
  have count : (List.zipWith operation a.numbers b.numbers).length = a.size := by
    rw [List.length_zipWith, ← length_numbers_eq numeric same numericToo, Nat.min_self,
      Tensor.length_numbers numeric]
  obtain ⟨made, filled, dtype, shape, data⟩ := Tensor.exists_ofNumbers numeric count
  refine ⟨made, ?_, dtype, shape, data⟩
  simp only [elementwise, Tensor.numbers?_of_numeric numeric, List.foldlM_cons, combine,
    if_neg (not_not_intro same), Tensor.numbers?_of_numeric numericToo]
  exact filled

theorem zipWith_flatMap {α : Type} {front back : α → List Binary64} {items : List α}
    (same : ∀ item ∈ items, (front item).length = (back item).length) :
    List.zipWith operation (items.flatMap front) (items.flatMap back) =
      items.flatMap fun item => List.zipWith operation (front item) (back item) := by
  induction items with
  | nil => rfl
  | cons item rest ih =>
      simp only [List.flatMap_cons]
      rw [List.zipWith_append (same item (List.mem_cons_self ..)),
        ih fun other member => same other (List.mem_cons_of_mem _ member)]

namespace Combined

variable {made : Tensor} {α : Type} {members : List α} {front back piece : α → Tensor}
  {row : List Nat}

theorem batchSize (combined : Combined operation a b made) : made.batchSize = a.batchSize := by
  rw [Tensor.batchSize, combined.shape]
  rfl

theorem isStack (combined : Combined operation a b made) (first : IsStack row a (members.map front))
    (second : IsStack row b (members.map back))
    (lengths : ∀ member ∈ members, (front member).numbers.length = (back member).numbers.length)
    (pieces : ∀ member ∈ members,
      Combined operation (front member) (back member) (piece member)) :
    IsStack row made (members.map piece) := by
  have typed : ∀ member ∈ members, (front member).dtype = a.dtype :=
    fun member inside => first.dtype _ (List.mem_map_of_mem inside)
  have sizes : (members.map piece).map Tensor.batchSize =
      (members.map front).map Tensor.batchSize := by
    rw [List.map_map, List.map_map]
    exact List.map_congr_left fun member inside => (pieces member inside).batchSize
  constructor
  · intro part inside
    obtain ⟨member, among, rfl⟩ := List.mem_map.mp inside
    rw [(pieces member among).dtype, typed member among, combined.dtype]
  · intro part inside
    obtain ⟨member, among, rfl⟩ := List.mem_map.mp inside
    rw [(pieces member among).shape, (pieces member among).batchSize]
    exact first.shapes _ (List.mem_map_of_mem among)
  · rw [combined.shape, first.shape, sizes]
  · rw [combined.data, first.numbers_eq, second.numbers_eq, List.flatMap_map, List.flatMap_map,
      zipWith_flatMap lengths, List.flatMap_assoc, List.flatMap_map]
    apply List.flatMap_congr
    intro member inside
    rw [(pieces member inside).data, typed member inside]

end Combined

theorem elementwise_of_numeric_stacks {α : Type} {members : List α} {front back : α → Tensor}
    {row : List Nat} (operation : Binary64 → Binary64 → Binary64)
    (first : IsStack row a (members.map front)) (second : IsStack row b (members.map back))
    (numeric : a.dtype ≠ .string) (numericToo : b.dtype ≠ .string) (same : b.shape = a.shape)
    (sameParts : ∀ member ∈ members, (back member).shape = (front member).shape) :
    ∃ (whole : Tensor) (piece : α → Tensor), elementwise operation [a, b] = .ok whole ∧
      IsStack row whole (members.map piece) ∧
        ∀ member ∈ members, elementwise operation [front member, back member] =
            .ok (piece member) ∧
          (piece member).batchSize = (front member).batchSize := by
  have frontNumeric : ∀ member ∈ members, (front member).dtype ≠ .string :=
    fun member inside => (first.dtype _ (List.mem_map_of_mem inside)).symm ▸ numeric
  have backNumeric : ∀ member ∈ members, (back member).dtype ≠ .string :=
    fun member inside => (second.dtype _ (List.mem_map_of_mem inside)).symm ▸ numericToo
  choose! piece made pieces using fun member inside =>
    exists_elementwise operation (frontNumeric member inside) (sameParts member inside)
      (backNumeric member inside)
  obtain ⟨whole, wholeMade, combined⟩ := exists_elementwise operation numeric same numericToo
  have lengths := fun member inside =>
    length_numbers_eq (frontNumeric member inside) (sameParts member inside)
      (backNumeric member inside)
  exact ⟨whole, piece, wholeMade, combined.isStack first second lengths pieces,
    fun member inside => ⟨made member inside, (pieces member inside).batchSize⟩⟩

theorem elementwise_of_stacks {α : Type} {members : List α} {front back : α → Tensor}
    {row row' : List Nat} (operation : Binary64 → Binary64 → Binary64)
    (first : IsStack row a (members.map front)) (second : IsStack row' b (members.map back))
    (sizes : ∀ member ∈ members, (front member).batchSize = (back member).batchSize) :
    (∃ cause, elementwise operation [a, b] = .error cause ∧
      ∀ member ∈ members, elementwise operation [front member, back member] = .error cause) ∨
    ∃ (whole : Tensor) (piece : α → Tensor), elementwise operation [a, b] = .ok whole ∧
      IsStack row whole (members.map piece) ∧
        ∀ member ∈ members, elementwise operation [front member, back member] =
            .ok (piece member) ∧
          (piece member).batchSize = (front member).batchSize := by
  have frontType : ∀ member ∈ members, (front member).dtype = a.dtype :=
    fun member inside => first.dtype _ (List.mem_map_of_mem inside)
  have backType : ∀ member ∈ members, (back member).dtype = b.dtype :=
    fun member inside => second.dtype _ (List.mem_map_of_mem inside)
  have frontShape : ∀ member ∈ members, (front member).shape = (front member).batchSize :: row :=
    fun member inside => first.shapes _ (List.mem_map_of_mem inside)
  have backShape : ∀ member ∈ members, (back member).shape = (front member).batchSize :: row' := by
    intro member inside
    rw [sizes member inside]
    exact second.shapes _ (List.mem_map_of_mem inside)
  have totals : sizeSum ((members.map back).map Tensor.batchSize) =
      sizeSum ((members.map front).map Tensor.batchSize) := by
    rw [List.map_map, List.map_map]
    exact congrArg sizeSum (List.map_congr_left fun member inside => (sizes member inside).symm)
  by_cases strings : a.dtype = .string
  · refine Or.inl ⟨_, elementwise_of_string strings [b], ?_⟩
    intro member inside
    exact elementwise_of_string ((frontType member inside).trans strings) [back member]
  have numeric : ∀ member ∈ members, (front member).dtype ≠ .string :=
    fun member inside => (frontType member inside).symm ▸ strings
  by_cases rows : row' = row
  · subst rows
    have same : b.shape = a.shape := by rw [first.shape, second.shape, totals]
    have sameParts : ∀ member ∈ members, (back member).shape = (front member).shape := by
      intro member inside
      rw [frontShape member inside, backShape member inside]
    by_cases stringsToo : b.dtype = .string
    · refine Or.inl ⟨_, elementwise_of_second_string strings same stringsToo, ?_⟩
      intro member inside
      exact elementwise_of_second_string (numeric member inside) (sameParts member inside)
        ((backType member inside).trans stringsToo)
    · exact Or.inr (elementwise_of_numeric_stacks operation first second strings stringsToo same
        sameParts)
  · have different : b.shape ≠ a.shape := by
      rw [first.shape, second.shape]
      exact fun equal => rows (List.cons.inj equal).2
    refine Or.inl ⟨_, elementwise_of_shapes strings different, ?_⟩
    intro member inside
    apply elementwise_of_shapes (numeric member inside)
    rw [frontShape member inside, backShape member inside]
    exact fun equal => rows (List.cons.inj equal).2

variable {wholes : List Tensor} {members : List (List Tensor)}

theorem rowwise_of_head {run : List Tensor → Outcome (List Tensor)}
    (stacked : Stacked wholes members) (count : wholes.length = 1)
    (through : ∀ first, run [first] = .ok [first]) : Rowwise run wholes members := by
  obtain ⟨whole, rfl⟩ := List.length_eq_one_iff.mp count
  obtain ⟨row, isStack, inside⟩ := stacked.column (show [whole][0]? = some whole from rfl)
  refine Or.inr ⟨whole, row, fun inputs => inputs.getD 0 whole, through whole, isStack, ?_⟩
  intro inputs member
  refine ⟨?_, stacked.shared inputs member _ (inside inputs member)⟩
  obtain ⟨first, rfl⟩ := List.length_eq_one_iff.mp (stacked.lengths inputs member)
  exact through first

theorem rowwise_of_pair {run : List Tensor → Outcome (List Tensor)}
    (stacked : Stacked wholes members) (count : wholes.length = 2)
    (operation : Binary64 → Binary64 → Binary64)
    (combines : ∀ a b, run [a, b] = (elementwise operation [a, b]).map fun output => [output]) :
    Rowwise run wholes members := by
  obtain ⟨a, b, rfl⟩ := List.length_eq_two.mp count
  obtain ⟨row, first, firstInside⟩ := stacked.column (show [a, b][0]? = some a from rfl)
  obtain ⟨row', second, secondInside⟩ := stacked.column (show [a, b][1]? = some b from rfl)
  have firstSize : ∀ inputs ∈ members,
      (inputs.getD 0 a).batchSize = Tensor.sharedBatchSize inputs :=
    fun inputs member => stacked.shared inputs member _ (firstInside inputs member)
  have sizes : ∀ inputs ∈ members, (inputs.getD 0 a).batchSize = (inputs.getD 1 b).batchSize :=
    fun inputs member => (firstSize inputs member).trans
      (stacked.shared inputs member _ (secondInside inputs member)).symm
  have ran : ∀ inputs ∈ members, run inputs =
      (elementwise operation [inputs.getD 0 a, inputs.getD 1 b]).map fun output => [output] := by
    intro inputs member
    obtain ⟨x, y, rfl⟩ := List.length_eq_two.mp (stacked.lengths inputs member)
    exact combines x y
  rcases elementwise_of_stacks operation first second sizes with
    ⟨cause, failed, allFailed⟩ | ⟨whole, piece, made, isStack, pieces⟩
  · refine Or.inl ⟨cause, by rw [combines, failed]; rfl, ?_⟩
    intro inputs member
    rw [ran inputs member, allFailed inputs member]
    rfl
  · refine Or.inr ⟨whole, row, piece, by rw [combines, made]; rfl, isStack, ?_⟩
    intro inputs member
    obtain ⟨output, size⟩ := pieces inputs member
    refine ⟨?_, size.trans (firstSize inputs member)⟩
    rw [ran inputs member, output]
    rfl

/-- Every operation but `doubled` gives each stacked run what it gives it alone. -/
theorem Operation.rowwise {operation : Operation} (regular : operation ≠ .doubled)
    (stacked : Stacked wholes members) : Rowwise operation.run wholes members := by
  by_cases count : wholes.length = operation.inputCount
  · cases operation with
    | multiply => exact rowwise_of_pair stacked count Binary64.mul fun _ _ => rfl
    | add => exact rowwise_of_pair stacked count Binary64.add fun _ _ => rfl
    | identity => exact rowwise_of_head stacked count fun _ => rfl
    | pause milliseconds => exact rowwise_of_head stacked count fun _ => rfl
    | doubled => exact absurd rfl regular
    | fail =>
        have fails {inputs : List Tensor} (one : inputs.length = Operation.fail.inputCount) :
            Operation.fail.run inputs = .error (refused "mock model failure") := by
          rw [Operation.run, if_neg (not_not_intro one)]
          rfl
        exact Or.inl ⟨_, fails count,
          fun inputs member => fails ((stacked.lengths inputs member).trans count)⟩
  · have refuses {inputs : List Tensor} (wrong : inputs.length ≠ operation.inputCount) :
        operation.run inputs = .error (refused "wrong number of inputs") := if_pos wrong
    exact Or.inl ⟨_, refuses count,
      fun inputs member => refuses (stacked.lengths inputs member ▸ count)⟩

end Arithmetic

end InferenceStore
