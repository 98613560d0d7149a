import InferenceStore.Table
import InferenceStore.Tensor.Basic

/-
Local names of one graph while it runs. They never are keys: a tensor enters by loading a key
or as the output of an operation, and leaves by being persisted.
-/

namespace InferenceStore

structure Context where
  bindings : Table String Tensor

namespace Context

def empty : Context := ⟨.empty⟩

def get? (context : Context) (name : String) : Option Tensor := context.bindings.get? name

def insert (context : Context) (name : String) (tensor : Tensor) : Context :=
  { bindings := context.bindings.set name tensor }

def insertAll (context : Context) (names : List String) (tensors : List Tensor) : Context :=
  (names.zip tensors).foldl (fun bound pair => bound.insert pair.1 pair.2) context

def collect? (context : Context) (names : List String) : Option (List Tensor) :=
  names.mapM context.get?

def size (context : Context) : Nat := context.bindings.size

theorem get?_insert (context : Context) (name other : String) (tensor : Tensor) :
    (context.insert name tensor).get? other =
      if other = name then some tensor else context.get? other :=
  context.bindings.get?_set name other tensor

end Context

end InferenceStore
