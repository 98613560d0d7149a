import InferenceStore.Command.Arguments
import InferenceStore.Keyspace.Basic
import InferenceStore.Tensor.Element

/-
Writing and reading tensors:
  `AI.TENSORSET key type dimension... [BLOB bytes | VALUES value...]`
  `AI.TENSORGET key [META] [BLOB | VALUES]`
-/

namespace InferenceStore.Command

structure TensorSet where
  key : String
  tensor : Tensor
  deriving DecidableEq

structure TensorFormat where
  showsMeta : Bool
  showsBlob : Bool
  showsValues : Bool
  deriving DecidableEq, Repr

structure TensorGet where
  key : String
  format : TensorFormat
  deriving DecidableEq, Repr

def isDataKeyword (argument : Bytes) : Bool :=
  Text.isKeyword argument "BLOB" || Text.isKeyword argument "VALUES"

/-- The dimensions up to a data keyword or the end. Each is above zero. -/
def dimensions : List Bytes → Outcome (List Nat × List Bytes)
  | [] => .ok ([], [])
  | argument :: rest =>
      if isDataKeyword argument then .ok ([], argument :: rest)
      else
        match Decimal.positive? argument with
        | none => .error (.tensor .invalidShape)
        | some dimension => do
            let (others, behind) ← dimensions rest
            pure (dimension :: others, behind)

/-- A truth value in a command is a single digit. -/
def isTruthDigit (argument : Bytes) : Bool := argument == [48] || argument == [49]

def tensorOfData (dtype : DType) (shape : List Nat) (count : Nat) :
    List Bytes → Outcome Tensor
  | [] => Tensor.zeros dtype shape
  | keyword :: data =>
      if Text.isKeyword keyword "BLOB" then
        match data with
        | [blob] => Tensor.ofData dtype shape blob
        | _ => .error (.tensor .singleBlob)
      else if data.length ≠ count then .error (.tensor .commandValueCount)
      else if dtype = .bool ∧ !data.all isTruthDigit then .error (.tensor .invalidValue)
      else Tensor.ofTexts dtype shape data

def TensorSet.ofArguments (arguments : List Bytes) : Outcome TensorSet :=
  match arguments with
  | _ :: key :: dtype :: dimension :: rest => do
      let key ← text key
      match DType.ofName? dtype with
      | none => .error (.tensor .invalidType)
      | some dtype =>
          let (shape, data) ← dimensions (dimension :: rest)
          match Shape.elementCount? shape with
          | none => .error (.tensor .invalidShape)
          | some count => do
              let tensor ← tensorOfData dtype shape count data
              pure ⟨key, tensor⟩
  | _ => .error (.wrongArity "AI.TENSORSET")

namespace TensorFormat

def standard : TensorFormat := ⟨true, true, false⟩

def add (format : TensorFormat) (argument : Bytes) : Outcome TensorFormat :=
  if Text.isKeyword argument "META" then .ok { format with showsMeta := true }
  else if Text.isKeyword argument "BLOB" then .ok { format with showsBlob := true }
  else if Text.isKeyword argument "VALUES" then .ok { format with showsValues := true }
  else .error (.tensor .unknownFormat)

def ofArguments (arguments : List Bytes) : Outcome TensorFormat :=
  if arguments.isEmpty then .ok standard
  else do
    let format ← arguments.foldlM add ⟨false, false, false⟩
    if format.showsBlob && format.showsValues then .error (.tensor .blobAndValues)
    else pure format

end TensorFormat

def TensorGet.ofArguments (arguments : List Bytes) : Outcome TensorGet :=
  match arguments with
  | _ :: key :: parts =>
      if 2 < parts.length then .error (.wrongArity "AI.TENSORGET")
      else do
        let key ← text key
        let format ← TensorFormat.ofArguments parts
        pure ⟨key, format⟩
  | _ => .error (.wrongArity "AI.TENSORGET")

def elementReply : Element → Reply
  | .integer value => .integer value
  | .real value => .double value
  | .text value => .bulk value

def valuesReply (tensor : Tensor) : Reply := .array (tensor.elements.map elementReply)

namespace TensorFormat

def dataFields (format : TensorFormat) (tensor : Tensor) : List Reply :=
  if format.showsBlob then [.status "blob", .bulk tensor.data]
  else if format.showsValues then [.status "values", valuesReply tensor]
  else []

def fields (format : TensorFormat) (tensor : Tensor) : Reply :=
  .array
    ([ .status "dtype", .status tensor.dtype.name
     , .status "shape"
     , .array (tensor.shape.map fun dimension => .integer (signedWord dimension)) ] ++
      format.dataFields tensor)

/-- A tensor as a client asked for it: the bare data, or names and values in turn. Names are
there if the type and shape are asked for, or if nothing is. -/
def reply (format : TensorFormat) (tensor : Tensor) : Reply :=
  if format.showsMeta then format.fields tensor
  else if format.showsBlob then .bulk tensor.data
  else if format.showsValues then valuesReply tensor
  else format.fields tensor

end TensorFormat

end InferenceStore.Command
