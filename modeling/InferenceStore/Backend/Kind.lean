import InferenceStore.Text.Ascii

/-
Families of backends. The codes are part of the stored encoding and never change.
-/

namespace InferenceStore

inductive BackendKind where
  | tf
  | tflite
  | torch
  | onnx
  deriving DecidableEq, Repr

namespace BackendKind

def all : List BackendKind := [.tf, .tflite, .torch, .onnx]

def name : BackendKind → String
  | .tf => "TF"
  | .tflite => "TFLITE"
  | .torch => "TORCH"
  | .onnx => "ONNX"

def ofName? (name : Bytes) : Option BackendKind :=
  all.find? fun kind => Text.isKeyword name kind.name

def needsNodeNames : BackendKind → Bool
  | .tf => true
  | _ => false

def code : BackendKind → Nat
  | .tf => 0
  | .tflite => 1
  | .torch => 2
  | .onnx => 3

def ofCode? (code : Nat) : Option BackendKind := all.find? fun kind => kind.code == code

theorem ofCode?_code (kind : BackendKind) : ofCode? kind.code = some kind := by
  cases kind <;> rfl

theorem ofCode?_eq_some {code : Nat} {kind : BackendKind} (found : ofCode? code = some kind) :
    kind.code = code := by
  have := List.find?_some found
  simpa using this

end BackendKind

end InferenceStore
