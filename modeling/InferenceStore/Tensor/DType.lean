import InferenceStore.Text.Ascii

/-
Element types. A numeric type has a fixed width in bytes; a string element is as long as it
is and ends in a terminator byte. The codes are part of the stored encoding and never change.
-/

namespace InferenceStore

inductive DType where
  | float
  | double
  | int8
  | int16
  | int32
  | int64
  | uint8
  | uint16
  | bool
  | string
  deriving DecidableEq, Repr

namespace DType

def all : List DType :=
  [.float, .double, .int8, .int16, .int32, .int64, .uint8, .uint16, .bool, .string]

def name : DType → String
  | .float => "FLOAT"
  | .double => "DOUBLE"
  | .int8 => "INT8"
  | .int16 => "INT16"
  | .int32 => "INT32"
  | .int64 => "INT64"
  | .uint8 => "UINT8"
  | .uint16 => "UINT16"
  | .bool => "BOOL"
  | .string => "STRING"

def ofName? (name : Bytes) : Option DType :=
  all.find? fun dtype => Text.isKeyword name dtype.name

def width? : DType → Option Nat
  | .int8 | .uint8 | .bool => some 1
  | .int16 | .uint16 => some 2
  | .float | .int32 => some 4
  | .double | .int64 => some 8
  | .string => none

def isFloat : DType → Bool
  | .float | .double => true
  | _ => false

def code : DType → Nat
  | .float => 0
  | .double => 1
  | .int8 => 2
  | .int16 => 3
  | .int32 => 4
  | .int64 => 5
  | .uint8 => 6
  | .uint16 => 7
  | .bool => 8
  | .string => 9

def ofCode? (code : Nat) : Option DType := all.find? fun dtype => dtype.code == code

def integerRange? : DType → Option (Int × Int)
  | .int8 => some (-0x80, 0x7F)
  | .int16 => some (-0x8000, 0x7FFF)
  | .int32 => some (-0x80000000, 0x7FFFFFFF)
  | .int64 => some (-signedLimit, signedLimit - 1)
  | .uint8 => some (0, 0xFF)
  | .uint16 => some (0, 0xFFFF)
  | .bool => some (0, 1)
  | .float | .double | .string => none

theorem ofCode?_code (dtype : DType) : ofCode? dtype.code = some dtype := by
  cases dtype <;> rfl

theorem ofCode?_eq_some {code : Nat} {dtype : DType} (found : ofCode? code = some dtype) :
    dtype.code = code := by
  have := List.find?_some found
  simpa using this

end DType

end InferenceStore
