import InferenceStore.Tensor.Element

/-
Stacking tensors along the leading dimension, and cutting a stack back into its parts.
Two tensors stack if they agree in type, rank and every dimension but the first. Sizes are
words, so their sums are taken modulo the word limit.
-/

namespace InferenceStore

namespace Tensor

/-- The leading dimension that all inputs share; zero if they disagree, if one is a scalar,
or if there are none. -/
def sharedBatchSize : List Tensor → Nat
  | [] => 0
  | first :: rest =>
      if (first :: rest).all fun t => 0 < t.rank && t.batchSize == first.batchSize then
        first.batchSize
      else 0

def stackable (a b : Tensor) : Bool :=
  a.dtype == b.dtype && a.rank == b.rank && 0 < a.rank && a.shape.drop 1 == b.shape.drop 1

def stack : List Tensor → Outcome Tensor
  | [] => .error (.tensor .nothingToStack)
  | [only] => .ok only
  | first :: rest =>
      let parts := first :: rest
      if parts.all (first.stackable ·) then
        ofData first.dtype (wordSum (parts.map batchSize) :: first.shape.drop 1)
          (parts.flatMap data)
      else .error (.tensor .incompatibleRows)

def rowSize (tensor : Tensor) : Nat := wrapWord (sizeProduct (tensor.shape.drop 1))

/-- The bytes of the elements from `first` up to `last`, terminators of strings included. -/
def elementBytes (tensor : Tensor) (first last : Nat) : Bytes :=
  if first = last then []
  else
    let spans := tensor.spans
    let start := (spans[first]?.map Span.start).getD tensor.data.length
    let stop := (spans[last]?.map Span.start).getD tensor.data.length
    Span.slice ⟨start, stop⟩ tensor.data

def rows (tensor : Tensor) (start count : Nat) : Outcome Tensor :=
  if tensor.rank = 0 ∨ tensor.batchSize < wrapWord (start + count) then
    .error (.tensor .rowsOutOfBounds)
  else
    let row := tensor.rowSize
    ofData tensor.dtype (count :: tensor.shape.drop 1)
      (tensor.elementBytes (wrapWord (start * row)) (wrapWord (wrapWord (start + count) * row)))

/-- The rows of each size in turn, the first ones from `offset` on. -/
def cutFrom (tensor : Tensor) (offset : Nat) : List Nat → Outcome (List Tensor)
  | [] => .ok []
  | size :: sizes => do
      let part ← tensor.rows offset size
      let parts ← cutFrom tensor (wrapWord (offset + size)) sizes
      pure (part :: parts)

def split (tensor : Tensor) (sizes : List Nat) : Outcome (List Tensor) :=
  if tensor.rank = 0 ∨ tensor.batchSize ≠ wordSum sizes then .error (.backend .batchSize)
  else tensor.cutFrom 0 sizes

end Tensor

end InferenceStore
