import InferenceStore.Entity.Target

/-
The keyspace: values under text keys. Typed reads and writes carry the two rules that every
command shares: a key that holds nothing is empty for a read and free for a write, and a value
of another type is never read as, or replaced by, something else.
-/

namespace InferenceStore

inductive Value where
  | tensor (tensor : Tensor)
  | model (model : Model)
  | script (script : Script)
  /-- A value of the host that the store does not understand. -/
  | foreign (data : Bytes)

def Value.typeName : Value → String
  | .tensor _ => "tensor"
  | .model _ => "model"
  | .script _ => "script"
  | .foreign _ => "other"

structure Keyspace where
  table : Table String Value

namespace Keyspace

def empty : Keyspace := ⟨.empty⟩

def get? (keyspace : Keyspace) (key : String) : Option Value := keyspace.table.get? key

def set (keyspace : Keyspace) (key : String) (value : Value) : Keyspace :=
  { table := keyspace.table.set key value }

def remove (keyspace : Keyspace) (key : String) : Keyspace :=
  { table := keyspace.table.remove key }

def contains (keyspace : Keyspace) (key : String) : Bool := (keyspace.get? key).isSome

/-- All entries in the byte order of their keys, which is the order of their code points. -/
def sorted (keyspace : Keyspace) : List (String × Value) :=
  keyspace.table.entries.mergeSort fun a b => decide (a.1 ≤ b.1)

def getTensor (keyspace : Keyspace) (key : String) : Outcome Tensor :=
  match keyspace.get? key with
  | some (.tensor tensor) => .ok tensor
  | some _ => .error .wrongType
  | none => .error (.emptyKey .tensor)

def getModel (keyspace : Keyspace) (key : String) : Outcome Model :=
  match keyspace.get? key with
  | some (.model model) => .ok model
  | some _ => .error .wrongType
  | none => .error (.emptyKey .model)

def getScript (keyspace : Keyspace) (key : String) : Outcome Script :=
  match keyspace.get? key with
  | some (.script script) => .ok script
  | some _ => .error .wrongType
  | none => .error (.emptyKey .script)

def putTensor (keyspace : Keyspace) (key : String) (tensor : Tensor) : Outcome Keyspace :=
  match keyspace.get? key with
  | none | some (.tensor _) => .ok (keyspace.set key (.tensor tensor))
  | some _ => .error .wrongType

def putModel (keyspace : Keyspace) (key : String) (model : Model) : Outcome Keyspace :=
  match keyspace.get? key with
  | none | some (.model _) => .ok (keyspace.set key (.model model))
  | some _ => .error .wrongType

def putScript (keyspace : Keyspace) (key : String) (script : Script) : Outcome Keyspace :=
  match keyspace.get? key with
  | none | some (.script _) => .ok (keyspace.set key (.script script))
  | some _ => .error .wrongType

theorem get?_set (keyspace : Keyspace) (key other : String) (value : Value) :
    (keyspace.set key value).get? other =
      if other = key then some value else keyspace.get? other :=
  keyspace.table.get?_set key other value

theorem get?_remove (keyspace : Keyspace) (key other : String) :
    (keyspace.remove key).get? other = if other = key then none else keyspace.get? other :=
  keyspace.table.get?_remove key other

end Keyspace

end InferenceStore
