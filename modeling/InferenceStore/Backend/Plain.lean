import InferenceStore.Backend.Basic

/-
A backend that is registered but can load nothing.
-/

namespace InferenceStore.Plain

def backend (kind : BackendKind) : Backend :=
  { kind := kind
    loadModel := fun _ _ => .error (.backend (.refused "plain backend"))
    loadScript := Backend.scriptsUnsupported kind }

end InferenceStore.Plain
