import InferenceStore.Number.Decimal
import InferenceStore.Text.Ascii

/-
Compute devices. A device is a processor or an accelerator, with or without a number; the two
are different devices, so `CPU` and `CPU:0` have run queues of their own.
-/

namespace InferenceStore

inductive DeviceClass where
  | cpu
  | gpu
  deriving DecidableEq, Repr

def DeviceClass.name : DeviceClass → String
  | .cpu => "CPU"
  | .gpu => "GPU"

structure Device where
  deviceClass : DeviceClass
  index : Option Nat
  deriving DecidableEq, Repr

namespace Device

def cpu : Device := ⟨.cpu, none⟩

def indexLimit : Nat := 0x100000000

def text (device : Device) : String :=
  match device.index with
  | none => device.deviceClass.name
  | some index => device.deviceClass.name ++ ":" ++ toString index

def classOfName? (name : Bytes) : Option DeviceClass :=
  [DeviceClass.cpu, .gpu].find? fun deviceClass => Text.isKeyword name deviceClass.name

def cutAtColon : Bytes → Bytes × Option Bytes
  | [] => ([], none)
  | byte :: rest =>
      if byte = 58 then ([], some rest)
      else
        let (front, back) := cutAtColon rest
        (byte :: front, back)

def ofText? (text : String) : Option Device :=
  let (name, index) := cutAtColon (Text.encode text)
  match classOfName? name, index with
  | none, _ => none
  | some deviceClass, none => some ⟨deviceClass, none⟩
  | some deviceClass, some digits =>
      (Decimal.natural? indexLimit digits).map fun n => ⟨deviceClass, some n⟩

end Device

end InferenceStore
