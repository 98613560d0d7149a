import InferenceStore.Proofs.Tensor.Buffer
import InferenceStore.Tensor.Batch

/-
Where elements lie. Behind a buffer of whole elements the next buffer's elements lie as in a
buffer of their own, only further on. So the elements of two buffers in a row are those of the
one and then those of the other, and the bytes between two elements are found again.
-/

namespace InferenceStore

namespace Span

def shift (distance : Nat) (span : Span) : Span := ⟨distance + span.start, distance + span.stop⟩

theorem slice_append_left {span : Span} {x : Bytes} (within : span.stop ≤ x.length) (y : Bytes) :
    span.slice (x ++ y) = span.slice x := by
  unfold slice
  by_cases inside : span.start ≤ x.length
  · rw [List.drop_append_of_le_length inside, List.take_append_of_le_length]
    rw [List.length_drop]
    omega
  · have empty : span.stop - span.start = 0 := by omega
    rw [empty, List.take_zero, List.take_zero]

theorem slice_shift (span : Span) (x y : Bytes) :
    (span.shift x.length).slice (x ++ y) = span.slice y := by
  simp only [slice, shift]
  rw [List.drop_length_add_append, Nat.add_sub_add_left]

end Span

/-! ### Strings -/

theorem length_stringSpans (start opened : Nat) (data : Bytes) :
    (stringSpans start opened data).length = terminatorCount data := by
  unfold terminatorCount
  induction data generalizing start opened with
  | nil => rfl
  | cons byte rest ih =>
      rw [stringSpans, List.count_cons]
      split
      · rename_i ends
        rw [List.length_cons, ih, ends]
        simp
      · rename_i goesOn
        rw [ih]
        simp [goesOn]

theorem stringSpans_shift (distance start opened : Nat) (data : Bytes) :
    stringSpans (distance + start) (distance + opened) data =
      (stringSpans start opened data).map (Span.shift distance) := by
  induction data generalizing start opened with
  | nil => rfl
  | cons byte rest ih =>
      simp only [stringSpans, Nat.add_assoc]
      split
      · rw [List.map_cons, ih]
        rfl
      · rw [ih]

theorem isTerminated_rest {byte : UInt8} {rest : Bytes}
    (terminated : isTerminated (byte :: rest) = true) : isTerminated rest = true := by
  cases rest with
  | nil => rfl
  | cons next others => simpa [isTerminated] using terminated

theorem stringSpans_append {start opened : Nat} {x : Bytes} (terminated : isTerminated x = true)
    (whole : x ≠ [] ∨ opened = start) (y : Bytes) :
    stringSpans start opened (x ++ y) =
      stringSpans start opened x ++ stringSpans (start + x.length) (start + x.length) y := by
  induction x generalizing start opened with
  | nil =>
      have fresh : opened = start := whole.resolve_left fun empty => empty rfl
      rw [fresh]
      rfl
  | cons byte rest ih =>
      have onward : start + (byte :: rest).length = start + 1 + rest.length := by
        rw [List.length_cons]
        omega
      have later := isTerminated_rest terminated
      rw [List.cons_append, stringSpans, stringSpans, onward]
      split
      · rw [ih later (Or.inr rfl), List.cons_append]
      · rename_i goesOn
        refine ih later (Or.inl ?_)
        rintro rfl
        simp [isTerminated, goesOn] at terminated

theorem stop_le_of_stringSpans {start opened : Nat} {data : Bytes} {span : Span}
    (member : span ∈ stringSpans start opened data) : span.stop ≤ start + data.length := by
  induction data generalizing start opened with
  | nil => cases member
  | cons byte rest ih =>
      rw [stringSpans] at member
      rw [List.length_cons]
      split at member
      · rcases List.mem_cons.mp member with same | later
        · subst same
          simp only
          omega
        · have bound := ih later
          omega
      · have bound := ih member
        omega

theorem start_of_stringSpans {start opened : Nat} {data : Bytes} {span : Span}
    (first : (stringSpans start opened data)[0]? = some span) : span.start = opened := by
  induction data generalizing start with
  | nil => cases first
  | cons byte rest ih =>
      rw [stringSpans] at first
      split at first
      · cases first
        rfl
      · exact ih first

/-! ### Elements of any type -/

def spansOf (dtype : DType) (count : Nat) (data : Bytes) : List Span :=
  match dtype.width? with
  | some width => (List.range count).map fun i => ⟨i * width, (i + 1) * width⟩
  | none => stringSpans 0 0 data

/-- The bytes of every element, terminators of strings left out. -/
def rawElements (dtype : DType) (count : Nat) (data : Bytes) : List Bytes :=
  (spansOf dtype count data).map fun span => span.slice data

theorem start_of_first {dtype : DType} {count : Nat} {data : Bytes} {span : Span}
    (first : (spansOf dtype count data)[0]? = some span) : span.start = 0 := by
  unfold spansOf at first
  cases width : dtype.width? with
  | some width =>
      simp only [width, List.getElem?_map] at first
      obtain ⟨i, found, rfl⟩ := Option.map_eq_some_iff.mp first
      obtain ⟨_, same⟩ := List.getElem?_eq_some_iff.mp found
      rw [List.getElem_range] at same
      rw [← same, Nat.zero_mul]
  | none =>
      simp only [width] at first
      exact start_of_stringSpans first

namespace Holds

variable {dtype : DType} {m n : Nat} {x y : Bytes}

theorem length_spans (held : Holds dtype m x) : (spansOf dtype m x).length = m := by
  unfold Holds at held
  unfold spansOf
  cases width : dtype.width? with
  | some width => simp
  | none =>
      simp only [width] at held ⊢
      rw [length_stringSpans, held.1]

theorem spans_append (first : Holds dtype m x) (n : Nat) (y : Bytes) :
    spansOf dtype (m + n) (x ++ y) =
      spansOf dtype m x ++ (spansOf dtype n y).map (Span.shift x.length) := by
  unfold Holds at first
  unfold spansOf
  cases width : dtype.width? with
  | some width =>
      simp only [width] at first ⊢
      rw [List.range_add, List.map_append, List.map_map, List.map_map]
      congr 1
      apply List.map_congr_left
      intro i _
      simp only [Function.comp_apply, Span.shift, first, ← Nat.add_mul, Nat.add_assoc]
  | none =>
      simp only [width] at first ⊢
      rw [stringSpans_append first.2 (Or.inr rfl), Nat.zero_add]
      exact congrArg _ (stringSpans_shift x.length 0 0 y)

theorem stop_le (held : Holds dtype m x) {span : Span} (member : span ∈ spansOf dtype m x) :
    span.stop ≤ x.length := by
  unfold Holds at held
  unfold spansOf at member
  cases width : dtype.width? with
  | some width =>
      simp only [width] at held member
      obtain ⟨i, inRange, rfl⟩ := List.mem_map.mp member
      rw [held]
      exact Nat.mul_le_mul_right _ (List.mem_range.mp inRange)
  | none =>
      simp only [width] at member
      have bound := stop_le_of_stringSpans member
      omega

theorem raw_append (first : Holds dtype m x) (n : Nat) (y : Bytes) :
    rawElements dtype (m + n) (x ++ y) = rawElements dtype m x ++ rawElements dtype n y := by
  unfold rawElements
  rw [spans_append first n y, List.map_append, List.map_map]
  congr 1
  · apply List.map_congr_left
    intro span member
    exact Span.slice_append_left (stop_le first member) y
  · apply List.map_congr_left
    intro span _
    exact Span.slice_shift span x y

/-- The element behind a buffer starts where the buffer ends, and so does the end of all. -/
theorem next_start (first : Holds dtype m x) (second : Holds dtype n y) :
    ((spansOf dtype (m + n) (x ++ y))[m]?.map Span.start).getD (x ++ y).length = x.length := by
  rw [spans_append first n y, List.getElem?_append_right (Nat.le_of_eq (length_spans first)),
    length_spans first, Nat.sub_self, List.getElem?_map]
  cases next : (spansOf dtype n y)[0]? with
  | none =>
      have count : n = 0 := by
        have short := List.getElem?_eq_none_iff.mp next
        rw [length_spans second] at short
        exact Nat.le_zero.mp short
      subst count
      rw [eq_nil second, List.append_nil]
      rfl
  | some span =>
      simp only [Option.map_some, Option.getD_some, Span.shift, start_of_first next]
      exact Nat.add_zero _

end Holds

namespace Tensor

theorem spans_eq (tensor : Tensor) :
    tensor.spans = spansOf tensor.dtype tensor.size tensor.data := rfl

theorem elements_eq (tensor : Tensor) : tensor.elements =
    (rawElements tensor.dtype tensor.size tensor.data).map tensor.dtype.readElement := by
  rw [rawElements, List.map_map, ← spans_eq]
  rfl

theorem elementBytes_eq {tensor : Tensor} {m n k : Nat} {x y z : Bytes}
    (data : tensor.data = x ++ (y ++ z)) (size : tensor.size = m + (n + k))
    (front : Holds tensor.dtype m x) (middle : Holds tensor.dtype n y)
    (back : Holds tensor.dtype k z) : tensor.elementBytes m (m + n) = y := by
  unfold elementBytes
  split
  · rename_i emptyRange
    have empty : n = 0 := by omega
    subst empty
    rw [middle.eq_nil]
  · have start := front.next_start (middle.append back)
    have stop := (front.append middle).next_start back
    rw [List.append_assoc, Nat.add_assoc] at stop
    simp only [spans_eq, size, data]
    rw [start, stop]
    simp only [Span.slice, List.length_append]
    rw [List.drop_left, Nat.add_sub_cancel_left, List.take_left]

end Tensor

end InferenceStore
