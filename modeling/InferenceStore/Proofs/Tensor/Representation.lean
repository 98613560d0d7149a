import InferenceStore.Proofs.Tensor.Numbers

/-
What every tensor is like. Its shape has a product, which is its size, and its buffer holds that
many elements: in a fixed width each, or as strings that end in a terminator each. So the elements
lie one behind the other, and only the terminators of strings lie between them.
-/

namespace InferenceStore

/-! ### Spans -/

namespace Span

def Contains (span : Span) (place : Nat) : Prop := span.start ≤ place ∧ place < span.stop

end Span

/-- Parts that lie in a buffer one behind the other, and hold the bytes that count and no others. -/
structure Lines (spans : List Span) (data : Bytes) (counts : UInt8 → Prop) : Prop where
  inside : ∀ span ∈ spans, span.start ≤ span.stop ∧ span.stop ≤ data.length
  rising : spans.Pairwise fun earlier later =>
    earlier.start < later.start ∧ earlier.stop ≤ later.start
  covers : ∀ place byte, data[place]? = some byte →
    ((∃ span ∈ spans, span.Contains place) ↔ counts byte)

/-! ### Strings -/

section Strings

variable {start opened : Nat} {data : Bytes}

theorem bounds_of_stringSpans (fresh : opened ≤ start) {span : Span}
    (member : span ∈ stringSpans start opened data) :
    opened ≤ span.start ∧ span.start ≤ span.stop ∧ start ≤ span.stop := by
  induction data generalizing start opened with
  | nil => cases member
  | cons byte rest ih =>
      rw [stringSpans] at member
      split at member
      · rcases List.mem_cons.mp member with rfl | later
        · exact ⟨Nat.le_refl _, fresh, Nat.le_refl _⟩
        · obtain ⟨behind, ordered, onward⟩ := ih (Nat.le_refl _) later
          exact ⟨by omega, ordered, by omega⟩
      · obtain ⟨behind, ordered, onward⟩ := ih (by omega) member
        exact ⟨behind, ordered, by omega⟩

theorem pairwise_stringSpans (fresh : opened ≤ start) :
    (stringSpans start opened data).Pairwise fun earlier later =>
      earlier.start < later.start ∧ earlier.stop ≤ later.start := by
  induction data generalizing start opened with
  | nil => exact .nil
  | cons byte rest ih =>
      rw [stringSpans]
      split
      · refine List.pairwise_cons.mpr ⟨fun later member => ?_, ih (Nat.le_refl _)⟩
        have behind := (bounds_of_stringSpans (Nat.le_refl _) member).1
        exact ⟨Nat.lt_of_le_of_lt fresh behind, Nat.le_of_succ_le behind⟩
      · exact ih (Nat.le_succ_of_le fresh)

theorem exists_opened (terminated : isTerminated data = true) (nonempty : data ≠ []) :
    ∃ span ∈ stringSpans start opened data, span.start = opened := by
  cases first : (stringSpans start opened data)[0]? with
  | some span => exact ⟨span, List.mem_of_getElem? first, start_of_stringSpans first⟩
  | none =>
      have count := List.getElem?_eq_none_iff.mp first
      rw [length_stringSpans] at count
      exact absurd (eq_nil_of_no_terminator (Nat.le_zero.mp count) terminated) nonempty

theorem covers_stringSpans (terminated : isTerminated data = true) (fresh : opened ≤ start)
    {place : Nat} {byte : UInt8} (found : data[place]? = some byte) :
    (∃ span ∈ stringSpans start opened data, span.Contains (start + place)) ↔
      byte ≠ terminator := by
  induction data generalizing start opened place with
  | nil => cases found
  | cons first rest ih =>
      have later := isTerminated_rest terminated
      rw [stringSpans]
      split
      · rename_i ends
        cases place with
        | zero =>
            cases found
            refine iff_of_false ?_ (not_not.mpr ends)
            rintro ⟨span, member, before, behind⟩
            rcases List.mem_cons.mp member with rfl | member
            · exact Nat.lt_irrefl _ behind
            · have onward := (bounds_of_stringSpans (Nat.le_refl _) member).1
              omega
        | succ place =>
            rw [← ih later (Nat.le_refl (start + 1)) found, Nat.add_right_comm start 1 place,
              List.exists_mem_cons_iff]
            refine or_iff_right ?_
            rintro ⟨_, behind⟩
            simp only at behind
            omega
      · rename_i goesOn
        cases place with
        | zero =>
            cases found
            refine iff_of_true ?_ goesOn
            have more : rest ≠ [] := by
              rintro rfl
              simp [isTerminated, goesOn] at terminated
            obtain ⟨span, member, begins⟩ := exists_opened later more
            obtain ⟨_, _, onward⟩ := bounds_of_stringSpans (Nat.le_succ_of_le fresh) member
            exact ⟨span, member, by omega, by omega⟩
        | succ place =>
            rw [← ih later (Nat.le_succ_of_le fresh) found, Nat.add_right_comm start 1 place]
            rfl

end Strings

theorem lines_strings {data : Bytes} (terminated : isTerminated data = true) :
    Lines (stringSpans 0 0 data) data (· ≠ terminator) where
  inside span member := by
    have bound := stop_le_of_stringSpans member
    exact ⟨(bounds_of_stringSpans (Nat.le_refl 0) member).2.1, by omega⟩
  rising := pairwise_stringSpans (Nat.le_refl 0)
  covers place byte found := by
    have covered := covers_stringSpans terminated (Nat.le_refl 0) found
    rwa [Nat.zero_add] at covered

/-! ### Elements of a fixed width -/

theorem lines_fixed {width : Nat} (positive : 0 < width) {count : Nat} {data : Bytes}
    (length : data.length = count * width) :
    Lines ((List.range count).map fun i => ⟨i * width, (i + 1) * width⟩) data fun _ => True where
  inside span member := by
    obtain ⟨i, inRange, rfl⟩ := List.mem_map.mp member
    have before := List.mem_range.mp inRange
    refine ⟨Nat.mul_le_mul_right _ (Nat.le_succ i), ?_⟩
    rw [length]
    exact Nat.mul_le_mul_right _ before
  rising := by
    refine List.pairwise_map.mpr (List.pairwise_lt_range.imp fun {i j} less => ?_)
    exact ⟨Nat.mul_lt_mul_of_pos_right less positive, Nat.mul_le_mul_right _ less⟩
  covers place byte found := by
    obtain ⟨within, _⟩ := List.getElem?_eq_some_iff.mp found
    refine iff_of_true ?_ trivial
    have index : place / width < count :=
      (Nat.div_lt_iff_lt_mul positive).mpr (length ▸ within)
    refine ⟨_, List.mem_map.mpr ⟨place / width, List.mem_range.mpr index, rfl⟩, ?_, ?_⟩
    · exact Nat.div_mul_le_self place width
    · exact Nat.lt_mul_of_div_lt (Nat.lt_succ_self _) positive

/-! ### Pieces of a string buffer -/

/-- A buffer of strings is as many pieces as it has terminators, each with one behind it. -/
theorem exists_pieces {data : Bytes} (terminated : isTerminated data = true) :
    ∃ pieces : List Bytes, pieces.length = terminatorCount data ∧
      (∀ piece ∈ pieces, terminator ∉ piece) ∧ data = pieces.flatMap (· ++ [terminator]) := by
  induction data with
  | nil => exact ⟨[], rfl, nofun, rfl⟩
  | cons byte rest ih =>
      obtain ⟨pieces, count, clean, whole⟩ := ih (isTerminated_rest terminated)
      by_cases ends : byte = terminator
      · refine ⟨[] :: pieces, ?_, List.forall_mem_cons.mpr ⟨List.not_mem_nil, clean⟩, ?_⟩
        · rw [ends, terminatorCount, List.count_cons_self, List.length_cons, count]
          rfl
        · rw [List.flatMap_cons, ← whole, ends]
          rfl
      · cases pieces with
        | nil =>
            subst whole
            simp [isTerminated, ends] at terminated
        | cons piece others =>
            obtain ⟨first, behind⟩ := List.forall_mem_cons.mp clean
            refine ⟨(byte :: piece) :: others, ?_, List.forall_mem_cons.mpr ⟨?_, behind⟩, ?_⟩
            · rw [terminatorCount, List.count_cons_of_ne ends]
              exact count
            · exact fun member => (List.mem_cons.mp member).elim (Ne.symm ends) first
            · rw [whole]
              rfl

theorem holds_piece {piece : Bytes} (clean : terminator ∉ piece) :
    Holds .string 1 (piece ++ [terminator]) := by
  refine ⟨?_, ?_⟩
  · rw [terminatorCount, List.count_append, List.count_eq_zero.mpr clean]
    rfl
  · rw [isTerminated, List.getLast?_concat]
    rfl

theorem stringSpans_piece (start opened : Nat) {piece : Bytes} (clean : terminator ∉ piece) :
    stringSpans start opened (piece ++ [terminator]) = [⟨opened, start + piece.length⟩] := by
  induction piece generalizing start with
  | nil => rfl
  | cons byte rest ih =>
      have goesOn : byte ≠ terminator := fun same => clean (same ▸ List.mem_cons_self ..)
      have later : terminator ∉ rest := fun member => clean (List.mem_cons_of_mem _ member)
      rw [List.cons_append, stringSpans, if_neg goesOn, ih (start + 1) later, List.length_cons,
        Nat.add_right_comm, Nat.add_assoc]

theorem rawElements_piece {piece : Bytes} (clean : terminator ∉ piece) :
    rawElements .string 1 (piece ++ [terminator]) = [piece] := by
  have spans : spansOf .string 1 (piece ++ [terminator]) = [⟨0, 0 + piece.length⟩] :=
    stringSpans_piece 0 0 clean
  rw [rawElements, spans, List.map_singleton, Nat.zero_add]
  exact congrArg (fun raw => [raw]) List.take_left

theorem rawElements_pieces {pieces : List Bytes} (clean : ∀ piece ∈ pieces, terminator ∉ piece) :
    rawElements .string pieces.length (pieces.flatMap (· ++ [terminator])) = pieces := by
  induction pieces with
  | nil => rfl
  | cons piece others ih =>
      obtain ⟨first, behind⟩ := List.forall_mem_cons.mp clean
      rw [List.flatMap_cons, List.length_cons, Nat.add_comm, (holds_piece first).raw_append,
        rawElements_piece first, ih behind]
      rfl

/-! ### Tensors -/

namespace Tensor

/-- The bytes of a buffer that belong to an element. -/
def Counts (dtype : DType) (byte : UInt8) : Prop := dtype = .string → byte ≠ terminator

/-- A tensor whose parts agree with each other. -/
structure WellFormed (tensor : Tensor) : Prop where
  size : tensor.size = sizeProduct tensor.shape
  small : sizeProduct tensor.shape < wordLimit
  fixed : ∀ width, tensor.dtype.width? = some width →
    tensor.data.length = sizeProduct tensor.shape * width
  strings : tensor.dtype = .string → ∃ pieces : List Bytes,
    pieces.length = sizeProduct tensor.shape ∧ (∀ piece ∈ pieces, terminator ∉ piece) ∧
      tensor.data = pieces.flatMap (· ++ [terminator]) ∧
      tensor.elements = pieces.map .text
  spans : tensor.spans.length = tensor.size
  lines : Lines tensor.spans tensor.data (Counts tensor.dtype)
  elements : tensor.elements.length = tensor.size
  numbers : tensor.dtype ≠ .string →
    ∃ numbers, tensor.numbers? = some numbers ∧ numbers.length = tensor.size

variable (tensor : Tensor)

theorem length_of_fixed {width : Nat} (fixed : tensor.dtype.width? = some width) :
    tensor.data.length = tensor.size * width := by
  have held := tensor.holds
  unfold Holds at held
  simpa only [fixed] using held

theorem terminated_of_string (strings : tensor.dtype = .string) :
    terminatorCount tensor.data = tensor.size ∧ isTerminated tensor.data = true := by
  have held := tensor.holds
  rwa [strings] at held

theorem exists_strings_of_string (strings : tensor.dtype = .string) : ∃ pieces : List Bytes,
    pieces.length = tensor.size ∧ (∀ piece ∈ pieces, terminator ∉ piece) ∧
      tensor.data = pieces.flatMap (· ++ [terminator]) ∧
      tensor.elements = pieces.map .text := by
  obtain ⟨count, terminated⟩ := tensor.terminated_of_string strings
  obtain ⟨pieces, several, clean, whole⟩ := exists_pieces terminated
  have length : pieces.length = tensor.size := several.trans count
  have raws : rawElements tensor.dtype tensor.size tensor.data = pieces := by
    rw [strings, ← length, whole, rawElements_pieces clean]
  refine ⟨pieces, length, clean, whole, ?_⟩
  rw [← raws, rawElements, List.map_map, ← spans_eq, elements, strings]
  rfl

theorem lines_spans : Lines tensor.spans tensor.data (Counts tensor.dtype) := by
  by_cases strings : tensor.dtype = .string
  · have counts : Counts tensor.dtype = (· ≠ terminator) :=
      funext fun byte => propext ⟨fun counts => counts strings, fun differs _ => differs⟩
    rw [counts, spans_eq, strings]
    exact lines_strings (tensor.terminated_of_string strings).2
  · obtain ⟨width, fixed⟩ := DType.width_of_numeric strings
    have counts : Counts tensor.dtype = fun _ => True :=
      funext fun byte => eq_true fun same => absurd same strings
    rw [counts, spans]
    simp only [fixed]
    exact lines_fixed (DType.width_pos fixed) (tensor.length_of_fixed fixed)

theorem holds_zeros (dtype : DType) (count : Nat) :
    Holds dtype count (List.replicate (count * dtype.width?.getD 1) 0) := by
  unfold Holds
  cases dtype.width? with
  | some width => exact List.length_replicate
  | none =>
      rw [Option.getD_none, Nat.mul_one]
      refine ⟨List.count_replicate_self, ?_⟩
      cases count with
      | zero => rfl
      | succ count => rw [isTerminated, List.getLast?_replicate]; rfl

theorem fits_zeros {dtype : DType} {shape : List Nat} {size : Nat}
    (counted : Shape.byteCount? shape (dtype.width?.getD 1) = some size) :
    FitsShape dtype shape (List.replicate size 0) := by
  obtain ⟨count, elements, sized⟩ := Option.bind_eq_some_iff.mp counted
  obtain ⟨word, same⟩ := Option.ite_none_right_eq_some.mp sized
  obtain rfl := Option.some.inj same
  refine fits_of_holds elements (holds_zeros dtype count) fun width fixed => ?_
  rwa [fixed] at word

/-- Whichever way a tensor was made, its parts agree. Zeros could be taken without looking at them
again: if they are not too many, they always fit. -/
theorem well_formed :
    (∀ tensor : Tensor, tensor.WellFormed) ∧
    ∀ dtype shape size,
      Shape.byteCount? shape (dtype.width?.getD 1) = some size → size ≤ maxZeroBytes →
      ∃ tensor, zeros dtype shape = .ok tensor ∧
        tensor.dtype = dtype ∧ tensor.shape = shape ∧ tensor.data = List.replicate size 0 := by
  constructor
  · intro tensor
    have product := tensor.size_eq
    have length : tensor.spans.length = tensor.size := tensor.holds.length_spans
    exact
      { size := product
        small := product ▸ tensor.size_lt
        fixed := fun width fixed => product ▸ tensor.length_of_fixed fixed
        strings := fun strings => product ▸ tensor.exists_strings_of_string strings
        spans := length
        lines := tensor.lines_spans
        elements := (List.length_map ..).trans length
        numbers := fun numeric => ⟨_, numbers?_of_numeric numeric, length_numbers numeric⟩ }
  · intro dtype shape size counted small
    have fits := fits_zeros counted
    refine ⟨⟨dtype, shape, _, fits⟩, ?_, rfl, rfl, rfl⟩
    rw [zeros, counted]
    dsimp only
    rw [if_neg (Nat.not_lt.mpr small), ofData, dif_pos fits]

/-- Six zero bytes as strings. -/
theorem well_formed_empty_strings :
    ∃ tensor, zeros .string [2, 3] = .ok tensor ∧ tensor.data = [0, 0, 0, 0, 0, 0] ∧
      tensor.WellFormed := by
  obtain ⟨all, zeroed⟩ := well_formed
  obtain ⟨tensor, made, _, _, data⟩ := zeroed .string [2, 3] 6 (by decide) (by decide)
  exact ⟨tensor, made, data, all tensor⟩

end Tensor

end InferenceStore
