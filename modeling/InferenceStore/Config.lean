import InferenceStore.Error
import InferenceStore.Number.Decimal
import InferenceStore.Text.Ascii

/-
Settings of the store. They are given as names and values when the store starts, and some can
be changed later. Names are read in any ASCII case; a wrong value leaves the setting as it was.
-/

namespace InferenceStore

structure Config where
  threadsPerQueue : Nat
  /-- Threads inside one operator; zero leaves the number to the backend. -/
  intraOpParallelism : Nat
  interOpParallelism : Nat
  modelChunkSize : Nat
  /-- Milliseconds a backend may spend on one run; zero is no limit. -/
  backendTimeout : Nat
  backendsPath : Option String
  deriving DecidableEq, Repr

inductive Setting where
  | threadsPerQueue
  | intraOpParallelism
  | interOpParallelism
  | modelChunkSize
  | backendTimeout
  | backendsPath
  deriving DecidableEq, Repr

namespace Setting

def names : List (String × Setting) :=
  [ ("THREADS_PER_QUEUE", .threadsPerQueue)
  , ("INTRA_OP_PARALLELISM", .intraOpParallelism)
  , ("INTER_OP_PARALLELISM", .interOpParallelism)
  , ("MODEL_CHUNK_SIZE", .modelChunkSize)
  , ("ONNX_TIMEOUT", .backendTimeout)
  , ("BACKEND_TIMEOUT", .backendTimeout)
  , ("BACKENDSPATH", .backendsPath) ]

def ofName? (name : String) : Option Setting := names.lookup (Text.upper name)

end Setting

namespace Config

def initial : Config :=
  { threadsPerQueue := 1
    intraOpParallelism := 0
    interOpParallelism := 0
    modelChunkSize := 511 * 1024 * 1024
    backendTimeout := 0
    backendsPath := none }

def leastBackendTimeout : Nat := 1000

def positive (name value : String) : Outcome Nat :=
  match Decimal.size? (Text.encode value) with
  | some (n + 1) => .ok (n + 1)
  | _ => .error (.config (.invalidValue name value))

/-- Changes one setting. A wrong number is reported under the name in capital letters, a wrong
timeout and an unknown name as they were written. -/
def set (config : Config) (name value : String) : Outcome Config :=
  match Setting.ofName? name with
  | some .threadsPerQueue => do
      let n ← positive (Text.upper name) value
      pure { config with threadsPerQueue := n }
  | some .intraOpParallelism => do
      let n ← positive (Text.upper name) value
      pure { config with intraOpParallelism := n }
  | some .interOpParallelism => do
      let n ← positive (Text.upper name) value
      pure { config with interOpParallelism := n }
  | some .modelChunkSize => do
      let n ← positive (Text.upper name) value
      pure { config with modelChunkSize := n }
  | some .backendTimeout => do
      let n ← positive name value
      if n < leastBackendTimeout then .error (.config (.timeoutTooShort name))
      else pure { config with backendTimeout := n }
  | some .backendsPath => pure { config with backendsPath := some value }
  | none => .error (.config (.unknownParameter name))

def get? (config : Config) (name : String) : Option String :=
  match Setting.ofName? name with
  | some .threadsPerQueue => some (toString config.threadsPerQueue)
  | some .intraOpParallelism => some (toString config.intraOpParallelism)
  | some .interOpParallelism => some (toString config.interOpParallelism)
  | some .modelChunkSize => some (toString config.modelChunkSize)
  | some .backendTimeout => some (toString config.backendTimeout)
  | some .backendsPath => config.backendsPath
  | none => none

def setAll (config : Config) : List String → Outcome Config
  | [] => .ok config
  | [_] => .error (.config .oddArguments)
  | name :: value :: rest => do
      let changed ← config.set name value
      setAll changed rest

/-- The settings of a store that starts with these arguments. An odd number of arguments is
refused before any is read. -/
def ofArguments (arguments : List String) : Outcome Config :=
  if arguments.length % 2 = 1 then .error (.config .oddArguments)
  else initial.setAll arguments

end Config

end InferenceStore
