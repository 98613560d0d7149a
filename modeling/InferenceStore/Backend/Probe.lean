import InferenceStore.Backend.Basic
import InferenceStore.Number.Decimal
import InferenceStore.Tensor.Basic
import InferenceStore.Text.Lines

/-
A backend that reports what it was told. A model blob gives the number of inputs and outputs
around the letter x; a script call answers with a line of its arguments. The lines of loads
are written here too, from what the store tells a backend when it loads something.
-/

namespace InferenceStore.Probe

def joined (names : List String) : String := ",".intercalate names

def line : LoadRequest → String
  | .model options =>
      "model device=" ++ options.device.text ++
        " inputs=" ++ joined options.inputs ++
        " outputs=" ++ joined options.outputs ++
        " batch_size=" ++ toString options.batchSize ++
        " intra=" ++ toString options.intraOpParallelism ++
        " inter=" ++ toString options.interOpParallelism ++
        " timeout=" ++ toString options.timeout
  | .script device => "script device=" ++ device.text

def cutAtX? : Bytes → Option (Bytes × Bytes)
  | [] => none
  | byte :: rest =>
      if byte = 120 then some ([], rest)
      else (cutAtX? rest).map fun (front, back) => (byte :: front, back)

def declaredCounts? (blob : Bytes) : Option (Nat × Nat) := do
  let (inputs, outputs) ← cutAtX? blob
  let inputCount ← Decimal.size? inputs
  let outputCount ← Decimal.size? outputs
  pure (inputCount, outputCount)

def callLine (function : String) (call : ScriptCall) : String :=
  function ++
    " inputs=" ++ toString call.inputs.length ++
    " lists=" ++ joined (call.listSizes.map toString) ++
    " keys=" ++ joined call.keys ++
    " args=" ++ joined call.arguments

/-- Answers with a buffer of one string. A line that holds a terminator itself would be several
strings, which the shape of one does not fit. -/
def runFunction (function : String) (call : ScriptCall) : Outcome (List Tensor) :=
  if function = "none" then .ok []
  else if function = "many" then .ok call.inputs
  else
    (Tensor.ofData .string [1] (Text.encode (callLine function call) ++ [terminator])).map
      fun output => [output]

def backend (kind : BackendKind) : Backend :=
  { kind := kind
    loadModel := fun blob _ =>
      match declaredCounts? blob with
      | some (inputs, outputs) =>
          .ok { inputCount := inputs, outputCount := outputs, run := Except.ok }
      | none => .error (.backend (.refused "Invalid probe blob"))
    loadScript := fun source _ =>
      let functions := (Text.pieces ' ' source.toList).map String.ofList
      .ok { functions := functions, run := runFunction } }

end InferenceStore.Probe
