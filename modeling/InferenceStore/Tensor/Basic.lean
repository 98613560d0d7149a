import InferenceStore.Error
import InferenceStore.Tensor.DType

/-
Tensors: typed, shaped, row-major buffers. A tensor carries the proof that its buffer fits
its type and shape, so every tensor there is has one element for each place of its shape.

A shape is checked from the left, each product below the word limit: `[0, 2^40, 2^40]` is a
shape and `[2^40, 2^40, 0]` is none.
-/

namespace InferenceStore

/-- Ends every element of a string tensor. -/
def terminator : UInt8 := 0

namespace Shape

/-- The product of the dimensions, if every dimension and every product from the left is a word. -/
def elementCount? (shape : List Nat) : Option Nat :=
  shape.foldlM
    (fun count dimension =>
      if dimension < wordLimit ∧ count * dimension < wordLimit then some (count * dimension)
      else none)
    1

def byteCount? (shape : List Nat) (width : Nat) : Option Nat :=
  (elementCount? shape).bind fun count =>
    if count * width < wordLimit then some (count * width) else none

end Shape

def terminatorCount (data : Bytes) : Nat := data.count terminator

/-- A buffer of strings holds no bytes behind its last terminator. -/
def isTerminated (data : Bytes) : Bool :=
  match data.getLast? with
  | none => true
  | some byte => byte == terminator

def FitsShape (dtype : DType) (shape : List Nat) (data : Bytes) : Prop :=
  match dtype.width? with
  | some width => Shape.byteCount? shape width = some data.length
  | none =>
      Shape.elementCount? shape = some (terminatorCount data) ∧ isTerminated data = true

instance (dtype : DType) (shape : List Nat) (data : Bytes) :
    Decidable (FitsShape dtype shape data) := by
  unfold FitsShape
  cases dtype.width? <;> exact inferInstance

structure Tensor where
  dtype : DType
  shape : List Nat
  data : Bytes
  fits : FitsShape dtype shape data
  deriving DecidableEq

namespace Tensor

def shapeFits (dtype : DType) (shape : List Nat) : Bool :=
  match dtype.width? with
  | some width => (Shape.byteCount? shape width).isSome
  | none => (Shape.elementCount? shape).isSome

/-- Takes a buffer as it is. A bad shape is reported before a bad length. -/
def ofData (dtype : DType) (shape : List Nat) (data : Bytes) : Outcome Tensor :=
  if fits : FitsShape dtype shape data then .ok ⟨dtype, shape, data, fits⟩
  else if shapeFits dtype shape then .error (.tensor .lengthMismatch)
  else .error (.tensor .invalidShape)

def maxZeroBytes : Nat := 512 * 1024 * 1024

def zeros (dtype : DType) (shape : List Nat) : Outcome Tensor :=
  match Shape.byteCount? shape (dtype.width?.getD 1) with
  | none => .error (.tensor .invalidShape)
  | some size =>
      if maxZeroBytes < size then .error (.tensor .tooLarge)
      else ofData dtype shape (List.replicate size 0)

def rank (tensor : Tensor) : Nat := tensor.shape.length

def size (tensor : Tensor) : Nat := (Shape.elementCount? tensor.shape).getD 0

/-- The leading dimension, along which batches are stacked; zero for a scalar. -/
def batchSize (tensor : Tensor) : Nat := tensor.shape.headD 0

end Tensor

end InferenceStore
