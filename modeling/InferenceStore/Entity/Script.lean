import InferenceStore.Backend.Basic
import InferenceStore.Statistics

/-
Scripts. A source is compiled by the one backend that knows scripts; clients may call the entry
points only, and without a list of them every function of the source is one.
-/

namespace InferenceStore

def scriptBackend : BackendKind := .torch

structure ScriptDefinition where
  device : Device
  tag : String
  /-- Functions that may be called; `none` for all of the source. -/
  entryPoints : Option (List String)
  source : String
  deriving DecidableEq, Repr

structure Script where
  id : InstanceId
  key : String
  device : Device
  tag : String
  source : String
  entryPoints : List String
  handle : ScriptHandle

namespace Script

def resolveEntryPoints (declared : Option (List String)) (functions : List String) :
    Outcome (List String) :=
  match declared with
  | none => .ok functions
  | some names =>
      match names.find? fun name => !functions.contains name with
      | some missing => .error (.backend (.noSuchFunction missing))
      | none => .ok names

def load (registry : BackendRegistry) (id : InstanceId) (key : String)
    (definition : ScriptDefinition) : Outcome Script := do
  let registration ← registry.get scriptBackend
  let handle ← registration.backend.loadScript definition.source definition.device
  let entryPoints ← resolveEntryPoints definition.entryPoints handle.functions
  pure
    { id := id
      key := key
      device := definition.device
      tag := definition.tag
      source := definition.source
      entryPoints := entryPoints
      handle := handle }

def call (script : Script) (function : String) (arguments : ScriptCall) :
    Outcome (List Tensor) :=
  if script.entryPoints.contains function then script.handle.run function arguments
  else .error (.backend (.notEntryPoint function))

def info (script : Script) : RunInfo :=
  { key := script.key
    kind := .script
    backend := scriptBackend
    device := script.device
    tag := script.tag }

end Script

end InferenceStore
