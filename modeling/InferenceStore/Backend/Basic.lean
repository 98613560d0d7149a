import InferenceStore.Backend.Kind
import InferenceStore.Device
import InferenceStore.Tensor.Basic

/-
Backends. A backend loads model blobs and script sources into handles, and a handle runs on
tensors. The store knows nothing else of it, so every statement about the store holds for any
backend of the host. A registry holds at most one backend of each kind.
-/

namespace InferenceStore

structure LoadOptions where
  device : Device
  inputs : List String
  outputs : List String
  batchSize : Nat
  intraOpParallelism : Nat
  interOpParallelism : Nat
  /-- Milliseconds one run may take; zero is no limit. -/
  timeout : Nat
  deriving DecidableEq, Repr

inductive LoadRequest where
  | model (options : LoadOptions)
  | script (device : Device)
  deriving DecidableEq, Repr

/-- A loaded model. Outputs keep the batch dimension first. -/
structure ModelHandle where
  inputCount : Nat
  outputCount : Nat
  run : List Tensor → Outcome (List Tensor)

/-- The arguments of a script call. Positional inputs come first, then the inputs of each list;
`listSizes` says how many belong to each. -/
structure ScriptCall where
  inputs : List Tensor
  listSizes : List Nat
  keys : List String
  arguments : List String

structure ScriptHandle where
  functions : List String
  run : String → ScriptCall → Outcome (List Tensor)

structure Backend where
  kind : BackendKind
  loadModel : Bytes → LoadOptions → Outcome ModelHandle
  loadScript : String → Device → Outcome ScriptHandle

def Backend.scriptsUnsupported (kind : BackendKind) : String → Device → Outcome ScriptHandle :=
  fun _ _ => .error (.backend (.noScripts kind.name))

structure Registration where
  number : Nat
  backend : Backend

/-- Registered backends, newest first. Only the newest of a kind serves it. -/
structure BackendRegistry where
  registrations : List Registration

namespace BackendRegistry

def empty : BackendRegistry := ⟨[]⟩

def register (registry : BackendRegistry) (backend : Backend) : BackendRegistry :=
  { registrations := ⟨registry.registrations.length, backend⟩ :: registry.registrations }

def find? (registry : BackendRegistry) (kind : BackendKind) : Option Registration :=
  registry.registrations.find? fun registration => registration.backend.kind == kind

def get (registry : BackendRegistry) (kind : BackendKind) : Outcome Registration :=
  match registry.find? kind with
  | some registration => .ok registration
  | none => .error (.backend (.notLoaded kind.name))

def isLoaded (registry : BackendRegistry) (kind : BackendKind) : Bool :=
  (registry.find? kind).isSome

end BackendRegistry

end InferenceStore
