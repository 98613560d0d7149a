import InferenceStore.Backend.Basic
import InferenceStore.Tensor.Batch
import InferenceStore.Text.Lines

/-
A backend of small arithmetic models. A model blob is the name of an operation; numbers are
combined in double precision and cast back to the type of the first input. A script is a list
of function definitions, of which only the names matter.
-/

namespace InferenceStore.Arithmetic

open Number

inductive Operation where
  | multiply
  | add
  | identity
  | fail
  /-- Twice as many rows as the input has. -/
  | doubled
  /-- The identity after a pause, which takes no time of the store's clock. -/
  | pause (milliseconds : Nat)
  deriving DecidableEq, Repr

def refused (reason : String) : Error := .backend (.refused reason)

namespace Operation

def names : List (String × Operation) :=
  [ ("mul", .multiply)
  , ("add", .add)
  , ("identity", .identity)
  , ("fail", .fail)
  , ("wrong_batch", .doubled) ]

def rest? : Bytes → Bytes → Option Bytes
  | [], blob => some blob
  | _ :: _, [] => none
  | expected :: opening, byte :: blob => if byte = expected then rest? opening blob else none

def ofBlob? (blob : Bytes) : Option Operation :=
  match names.find? fun entry => Text.encode entry.1 == blob with
  | some (_, operation) => some operation
  | none =>
      ((rest? (Text.encode "sleep:") blob).bind Decimal.size?).map Operation.pause

def inputCount : Operation → Nat
  | .multiply | .add => 2
  | _ => 1

end Operation

def combine (operation : Binary64 → Binary64 → Binary64) (shape : List Nat)
    (values : List Binary64) (other : Tensor) : Outcome (List Binary64) :=
  if other.shape ≠ shape then .error (refused "Incompatible shapes for elementwise op")
  else
    match other.numbers? with
    | none => .error (refused "numeric input expected")
    | some numbers => .ok (List.zipWith operation values numbers)

def elementwise (operation : Binary64 → Binary64 → Binary64) (inputs : List Tensor) :
    Outcome Tensor :=
  match inputs with
  | [] => .error (refused "no inputs")
  | first :: others =>
      match first.numbers? with
      | none => .error (refused "numeric input expected")
      | some numbers => do
          let values ← others.foldlM (combine operation first.shape) numbers
          Tensor.ofNumbers first.dtype first.shape values

namespace Operation

def output (operation : Operation) (inputs : List Tensor) : Outcome Tensor :=
  match operation, inputs with
  | .multiply, _ => elementwise Binary64.mul inputs
  | .add, _ => elementwise Binary64.add inputs
  | .fail, _ => .error (refused "mock model failure")
  | .doubled, first :: _ => Tensor.stack [first, first]
  | .identity, first :: _ => .ok first
  | .pause _, first :: _ => .ok first
  | _, [] => .error (refused "no inputs")

def run (operation : Operation) (inputs : List Tensor) : Outcome (List Tensor) :=
  if inputs.length ≠ operation.inputCount then .error (refused "wrong number of inputs")
  else (operation.output inputs).map fun output => [output]

def handle (operation : Operation) : ModelHandle :=
  { inputCount := operation.inputCount
    outputCount := 1
    run := operation.run }

end Operation

/-- The name that a line defines: what stands between the keyword and the first bracket. -/
def definedName? (line : List Char) : Option String :=
  (Text.after? "def ".toList line).bind fun rest =>
    (Text.cutAt? '(' rest).map fun (name, _) => String.ofList (Text.trimBlanks name)

def functionNames (source : String) : List String :=
  (Text.lines source.toList).filterMap definedName?

/-- The function `fail` fails, every other adds its inputs. -/
def runFunction (function : String) (call : ScriptCall) : Outcome (List Tensor) :=
  if function = "fail" then .error (refused "boom")
  else (elementwise Binary64.add call.inputs).map fun output => [output]

def backend (kind : BackendKind) : Backend :=
  { kind := kind
    loadModel := fun blob _ =>
      match Operation.ofBlob? blob with
      | some operation => .ok operation.handle
      | none => .error (refused "Invalid model blob")
    loadScript := fun source _ =>
      let functions := functionNames source
      if functions.isEmpty then .error (refused "Invalid script source")
      else .ok { functions := functions, run := runFunction } }

end InferenceStore.Arithmetic
