import InferenceStore.Command.Arguments
import InferenceStore.Keyspace.Basic

/-
Storing and running models:
  `AI.MODELSTORE key backend device [TAG t] [BATCHSIZE n] [MINBATCHSIZE n] [MINBATCHTIMEOUT ms]
     [INPUTS n name... OUTPUTS n name...] BLOB chunk...`
  `AI.MODELEXECUTE key INPUTS n name... OUTPUTS n name... [TIMEOUT ms]`
  `AI.MODELRUN key [TIMEOUT ms] INPUTS name... OUTPUTS name...`
The last is deprecated and says where names end by keywords instead of counts.
-/

namespace InferenceStore.Command

structure ModelStore where
  key : String
  definition : ModelDefinition
  blob : Bytes
  deriving DecidableEq, Repr

structure ModelRun where
  model : Model
  inputs : List String
  outputs : List String
  timeout : Option Nat

def optionalSize (keyword : String) (arguments : List Bytes) :
    Outcome (Option Nat × List Bytes) :=
  match arguments with
  | [] => .ok (none, [])
  | argument :: rest =>
      if Text.isKeyword argument keyword then
        match rest with
        | [] => .error (.malformed (.invalidArgument keyword))
        | digits :: behind =>
            match Decimal.nonNegative? digits with
            | some n => .ok (some n, behind)
            | none => .error (.malformed (.invalidArgument keyword))
      else .ok (none, argument :: rest)

/-- The batch policy, each part of which asks for the part before it. -/
def batchPolicy (arguments : List Bytes) : Outcome (BatchPolicy × List Bytes) := do
  let (batchSize, afterSize) ← optionalSize "BATCHSIZE" arguments
  let batchSize := batchSize.getD 0
  let (minBatchSize, afterMinimum) ← optionalSize "MINBATCHSIZE" afterSize
  let minBatchSize := minBatchSize.getD 0
  if batchSize = 0 ∧ 0 < minBatchSize then
    .error (.malformed (.dependentOption "MINBATCHSIZE" "BATCHSIZE"))
  else do
    let (minBatchTimeout, rest) ← optionalSize "MINBATCHTIMEOUT" afterMinimum
    let minBatchTimeout := minBatchTimeout.getD 0
    if minBatchSize = 0 ∧ 0 < minBatchTimeout then
      .error (.malformed (.dependentOption "MINBATCHTIMEOUT" "MINBATCHSIZE"))
    else pure (⟨batchSize, minBatchSize, minBatchTimeout⟩, rest)

def nodeNames (side : Side) (arguments : List Bytes) : Outcome (List String × List Bytes) :=
  match arguments with
  | [] => .error (.malformed (.invalidArgument (side.name ++ "_count")))
  | digits :: rest =>
      match Decimal.positive? digits with
      | none => .error (.malformed (.invalidArgument (side.name ++ "_count")))
      | some count =>
          match take? count rest with
          | none => .error (.malformed (.nodeNames side))
          | some (names, behind) => do
              let names ← texts names
              pure (names, behind)

def missingBlob : Error := .malformed (.missingPart "model BLOB")

/-- The names of graph nodes of a backend that needs them, and the arguments from the blob
keyword on. Other backends may not be given any. -/
def nodeScopes (backend : BackendKind) (arguments : List Bytes) :
    Outcome (List String × List String × List Bytes) :=
  match arguments with
  | [] => .error missingBlob
  | keyword :: rest =>
      if backend.needsNodeNames then
        if !Text.isKeyword keyword "INPUTS" then
          .error (.malformed (.scopeMissingFor .input backend.name))
        else do
          let (inputs, afterInputs) ← nodeNames .input rest
          match afterInputs with
          | [] => .error (.malformed (.scopeMissingFor .output backend.name))
          | second :: behind =>
              if !Text.isKeyword second "OUTPUTS" then
                .error (.malformed (.scopeMissingFor .output backend.name))
              else do
                let (outputs, afterOutputs) ← nodeNames .output behind
                if afterOutputs.isEmpty then .error missingBlob
                else pure (inputs, outputs, afterOutputs)
      else if Text.isKeyword keyword "INPUTS" then .error (.malformed .inputsUnwanted)
      else .ok ([], [], keyword :: rest)

def blobOfChunks : List Bytes → Outcome Bytes
  | [] => .error missingBlob
  | keyword :: chunks =>
      if !Text.isKeyword keyword "BLOB" then .error (.malformed .blobExpected)
      else if chunks.isEmpty then .error missingBlob
      else .ok chunks.flatten

/-- Reads the command that stores a model; `command` names it in the error for too few
arguments, because a deprecated command shares the grammar. -/
def ModelStore.ofArguments (command : String) (arguments : List Bytes) : Outcome ModelStore :=
  match arguments with
  | _ :: key :: backend :: device :: rest =>
      if rest.length < 2 then .error (.wrongArity command)
      else do
        let key ← text key
        match BackendKind.ofName? backend with
        | none => .error (.malformed .unknownBackend)
        | some backend =>
            let device ← Command.device device
            let (tag, afterTag) ← optionalTag rest
            let (policy, afterPolicy) ← batchPolicy afterTag
            let (inputs, outputs, afterScopes) ← nodeScopes backend afterPolicy
            let blob ← blobOfChunks afterScopes
            pure
              { key := key
                definition := ⟨backend, device, tag, inputs, outputs, policy⟩
                blob := blob }
  | _ => .error (.wrongArity command)

def modelScope (side : Side) (expected : Nat) (arguments : List Bytes) :
    Outcome (List String × List Bytes) :=
  match arguments with
  | [] => .error (.malformed (.scopeMissing side))
  | keyword :: rest =>
      if !Text.isKeyword keyword side.scope then .error (.malformed (.scopeMissing side))
      else
        match rest.head?.bind Decimal.integer? with
        | none => .error (.malformed (.invalidArgument (side.name ++ "_count")))
        | some count =>
            if count ≤ 0 then .error (.malformed (.countNotPositive side))
            else if count.toNat ≠ expected then .error (.malformed (.countNotOfModel side))
            else
              match take? count.toNat (rest.drop 1) with
              | none => .error (.malformed (.modelKeys side))
              | some (names, behind) => do
                  let names ← texts names
                  pure (names, behind)

def unexpected (argument : Bytes) : Error :=
  .malformed (.unexpected (Text.decodeLossy argument))

def finalTimeout : List Bytes → Outcome (Option Nat)
  | [] => .ok none
  | keyword :: rest =>
      if !Text.isKeyword keyword "TIMEOUT" then .error (unexpected keyword)
      else
        match rest with
        | [] => .error (.malformed .missingTimeout)
        | value :: extra => do
            let milliseconds ← Command.timeout value
            match extra with
            | [] => pure (some milliseconds)
            | argument :: _ => .error (unexpected argument)

def ModelRun.ofExecute (keyspace : Keyspace) (arguments : List Bytes) : Outcome ModelRun :=
  match arguments with
  | _ :: key :: rest =>
      if rest.length < 6 then .error (.wrongArity "AI.MODELEXECUTE")
      else do
        let key ← text key
        let model ← keyspace.getModel key
        let (inputs, afterInputs) ← modelScope .input model.inputCount rest
        let (outputs, afterOutputs) ← modelScope .output model.outputCount afterInputs
        let timeout ← finalTimeout afterOutputs
        pure ⟨model, inputs, outputs, timeout⟩
  | _ => .error (.wrongArity "AI.MODELEXECUTE")

def leadingTimeout : List Bytes → Outcome (Option Nat × List Bytes)
  | [] => .ok (none, [])
  | keyword :: rest =>
      if Text.isKeyword keyword "TIMEOUT" then
        match rest with
        | [] => .error (.malformed .missingTimeout)
        | value :: behind => do
            let milliseconds ← Command.timeout value
            pure (some milliseconds, behind)
      else .ok (none, keyword :: rest)

/-- Whether an argument ends the input names. Only the first one does. -/
def opensOutputs (argument : Bytes) : Bool := Text.isKeyword argument "OUTPUTS"

def ModelRun.ofRun (keyspace : Keyspace) (arguments : List Bytes) : Outcome ModelRun :=
  match arguments with
  | _ :: key :: rest =>
      if rest.length < 4 then .error (.wrongArity "AI.MODELRUN")
      else do
        let key ← text key
        let model ← keyspace.getModel key
        let (timeout, scopes) ← leadingTimeout rest
        match scopes with
        | [] => .error (.malformed (.scopeMissing .input))
        | keyword :: names =>
            if !Text.isKeyword keyword "INPUTS" then
              .error (.malformed (.scopeMissing .input))
            else do
              let inputs ← texts (names.takeWhile fun name => !opensOutputs name)
              let outputs ← texts ((names.dropWhile fun name => !opensOutputs name).drop 1)
              if inputs.length ≠ model.inputCount then
                .error (.malformed (.countNotOfModel .input))
              else if outputs.length ≠ model.outputCount then
                .error (.malformed (.countNotOfModel .output))
              else pure ⟨model, inputs, outputs, timeout⟩
  | _ => .error (.wrongArity "AI.MODELRUN")

end InferenceStore.Command
