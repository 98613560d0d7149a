import InferenceStore.Number.Scientific
import InferenceStore.Tensor.Basic

/-
Single elements: where each lies in the buffer, what it is, and how buffers are written
from values. Integers read as integers, both floating types as double precision, strings
as their bytes without the terminator.
-/

namespace InferenceStore

open Number

inductive Element where
  | integer (value : Int)
  | real (value : Binary64)
  | text (value : Bytes)
  deriving DecidableEq, Repr

structure Span where
  start : Nat
  stop : Nat
  deriving DecidableEq, Repr

def Span.slice (span : Span) (data : Bytes) : Bytes :=
  (data.drop span.start).take (span.stop - span.start)

/-- The strings of a buffer, `start` being the place of its first byte and `opened` the place
where the string under way began. -/
def stringSpans (start opened : Nat) : Bytes → List Span
  | [] => []
  | byte :: rest =>
      if byte = terminator then ⟨opened, start⟩ :: stringSpans (start + 1) (start + 1) rest
      else stringSpans (start + 1) opened rest

namespace DType

def readInteger (dtype : DType) (raw : Bytes) : Int :=
  match dtype with
  | .int8 | .int16 | .int32 | .int64 => Bytes.toInteger raw
  | _ => Bytes.toWord raw

def readReal (dtype : DType) (raw : Bytes) : Binary64 :=
  match dtype with
  | .float => Binary64.ofBinary32 (Bytes.toWord raw)
  | _ => Binary64.ofBits (Bytes.toWord raw)

def readElement (dtype : DType) (raw : Bytes) : Element :=
  match dtype with
  | .string => .text raw
  | .float | .double => .real (dtype.readReal raw)
  | _ => .integer (dtype.readInteger raw)

def readNumber? (dtype : DType) (raw : Bytes) : Option Binary64 :=
  match dtype.readElement raw with
  | .integer value => some (Binary64.ofInteger value)
  | .real value => some value
  | .text _ => none

/-- The bytes of an integer element. High bits that the width has no room for are dropped. -/
def writeInteger (dtype : DType) (value : Int) : Bytes :=
  Bytes.ofInteger (dtype.width?.getD 0) value

def writeReal (dtype : DType) (value : Binary64) : Bytes :=
  match dtype with
  | .float => Bytes.ofWord 4 value.toBinary32
  | _ => Bytes.ofWord 8 value.bits.toNat

def castReal? (dtype : DType) (value : Binary64) : Option Bytes :=
  match dtype with
  | .string => none
  | .float | .double => some (dtype.writeReal value)
  | _ => some (dtype.writeInteger value.toInteger)

def writeText? (dtype : DType) (text : Bytes) : Option Bytes :=
  match dtype.integerRange? with
  | some (low, high) =>
      ((Decimal.integer? text).filter fun value => low ≤ value && value ≤ high).map
        dtype.writeInteger
  | none =>
      match dtype with
      | .string => if text.contains terminator then none else some (text ++ [terminator])
      | _ => (Binary64.ofText? text).map dtype.writeReal

end DType

namespace Tensor

def spans (tensor : Tensor) : List Span :=
  match tensor.dtype.width? with
  | some width => (List.range tensor.size).map fun i => ⟨i * width, (i + 1) * width⟩
  | none => stringSpans 0 0 tensor.data

def elements (tensor : Tensor) : List Element :=
  tensor.spans.map fun span => tensor.dtype.readElement (span.slice tensor.data)

def numbers? (tensor : Tensor) : Option (List Binary64) :=
  if tensor.dtype = .string then none
  else tensor.spans.mapM fun span => tensor.dtype.readNumber? (span.slice tensor.data)

def ofTexts (dtype : DType) (shape : List Nat) (texts : List Bytes) : Outcome Tensor :=
  if Shape.elementCount? shape = some texts.length then
    match texts.mapM dtype.writeText? with
    | some elements => ofData dtype shape elements.flatten
    | none => .error (.tensor .invalidValue)
  else .error (.tensor .valueCount)

def ofNumbers (dtype : DType) (shape : List Nat) (numbers : List Binary64) : Outcome Tensor :=
  match numbers.mapM dtype.castReal? with
  | some elements => ofData dtype shape elements.flatten
  | none => .error (.tensor .notNumeric)

def ofSingles (shape : List Nat) (bits : List Nat) : Outcome Tensor :=
  ofData .float shape (bits.flatMap (Bytes.ofWord 4))

end Tensor

end InferenceStore
