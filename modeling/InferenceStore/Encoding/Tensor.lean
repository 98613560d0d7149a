import InferenceStore.Encoding.Field
import InferenceStore.Tensor.Basic

/-
The stored form of a tensor: version, code of the type, rank, dimensions, length, buffer.
There is one version so far.
-/

namespace InferenceStore.Encoding

def tensorVersion : Nat := 1

def writeTensor (tensor : Tensor) : Bytes :=
  Bytes.ofWord 4 tensorVersion ++
    Bytes.ofWord 1 tensor.dtype.code ++
    Bytes.ofWord 4 tensor.rank ++
    tensor.shape.flatMap (Bytes.ofWord 8) ++
    Bytes.ofWord 8 tensor.data.length ++
    tensor.data

/-- Reads a tensor; what follows it is ignored. A shape without an element count is refused
before its buffer is read. -/
def readTensor (data : Bytes) : Outcome Tensor := do
  let (version, afterVersion) ← readWord 4 data
  if version ≠ tensorVersion then .error (.encoding (.unsupportedVersion version))
  else
    let (code, afterCode) ← readWord 1 afterVersion
    match DType.ofCode? code with
    | none => .error (.encoding .unknownType)
    | some dtype =>
        let (rank, afterRank) ← readWord 4 afterCode
        let (shape, afterShape) ← readMany (readWord 8) rank afterRank
        if (Shape.elementCount? shape).isNone then .error (.encoding .invalidShape)
        else
          let (length, afterLength) ← readWord 8 afterShape
          let (buffer, _) ← readBytes length afterLength
          Tensor.ofData dtype shape buffer

end InferenceStore.Encoding
