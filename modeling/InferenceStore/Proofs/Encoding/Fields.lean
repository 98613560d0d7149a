import InferenceStore.Encoding.Script
import InferenceStore.Encoding.Tensor
import InferenceStore.Proofs.Number.Decimal

/-
Fields of stored encodings. Each reader takes off the front exactly what the writer of its field has
put there, whatever follows, so fields can stand behind each other. A length or a count is written
in four or eight bytes, and is read back if it fits there.
-/

namespace InferenceStore

namespace Device

def Numbered (device : Device) : Prop := ∀ index ∈ device.index, index < indexLimit

theorem ofText?_text {device : Device} (numbered : device.Numbered) :
    ofText? device.text = some device := by
  obtain ⟨deviceClass, index⟩ := device
  cases index with
  | none => cases deviceClass <;> decide +kernel
  | some index =>
      have read := Decimal.natural?_text (numbered index rfl)
      have name : Text.encode (Device.text ⟨deviceClass, some index⟩) =
          Text.encode deviceClass.name ++ 58 :: Text.encode (toString index) := by
        rw [text, Text.encode_append, Text.encode_append, List.append_assoc]
        rfl
      have cut : cutAtColon (Text.encode (Device.text ⟨deviceClass, some index⟩)) =
          (Text.encode deviceClass.name, some (Text.encode (toString index))) := by
        rw [name]
        cases deviceClass <;> rfl
      have known : classOfName? (Text.encode deviceClass.name) = some deviceClass := by
        cases deviceClass <;> decide +kernel
      simp only [ofText?, cut, known, read, Option.map_some]

end Device

namespace Encoding

variable {α : Type}

/-- Takes what was written off the front and leaves what follows. -/
def Reads (read : Reader α) (value : α) (written : Bytes) : Prop :=
  ∀ rest, read (written ++ rest) = .ok (value, rest)

theorem reads_bytes (bytes : Bytes) : Reads (readBytes bytes.length) bytes bytes := by
  intro rest
  have enough : ¬ (bytes ++ rest).length < bytes.length := by
    rw [List.length_append]
    omega
  rw [readBytes, if_neg enough, List.take_left, List.drop_left]

theorem reads_word {width value : Nat} (fits : value < Bytes.fieldLimit width) :
    Reads (readWord width) value (Bytes.ofWord width value) := by
  intro rest
  have raw := reads_bytes (Bytes.ofWord width value) rest
  rw [Bytes.length_ofWord] at raw
  simp only [readWord, raw, bind, Except.bind, pure, Except.pure, Bytes.toWord_ofWord,
    Nat.mod_eq_of_lt fits]

def Short (text : String) : Prop := (Text.encode text).length < Bytes.fieldLimit 4

instance (text : String) : Decidable (Short text) :=
  inferInstanceAs (Decidable ((Text.encode text).length < Bytes.fieldLimit 4))

theorem reads_text {text : String} (short : Short text) : Reads readText text (writeText text) := by
  intro rest
  have length := reads_word short (Text.encode text ++ rest)
  have raw := reads_bytes (Text.encode text) rest
  simp only [readText, writeText, List.append_assoc, length, raw, bind, Except.bind, pure,
    Except.pure, Text.decode?_encode]

theorem reads_many {item : Reader α} {write : α → Bytes} {values : List α}
    (each : ∀ value ∈ values, Reads item value (write value)) :
    Reads (readMany item values.length) values (values.flatMap write) := by
  induction values with
  | nil => exact fun _ => rfl
  | cons value others ih =>
      obtain ⟨first, behind⟩ := List.forall_mem_cons.mp each
      intro rest
      have front := first (others.flatMap write ++ rest)
      have back := ih behind rest
      simp only [List.flatMap_cons, List.append_assoc, List.length_cons, readMany, front, back,
        bind, Except.bind, pure, Except.pure]

structure Listable (texts : List String) : Prop where
  several : texts.length < Bytes.fieldLimit 4
  short : ∀ text ∈ texts, Short text

theorem reads_texts {texts : List String} (listable : Listable texts) :
    Reads readTexts texts (writeTexts texts) := by
  intro rest
  have count := reads_word listable.several (texts.flatMap writeText ++ rest)
  have items := reads_many (fun text member => reads_text (listable.short text member)) rest
  simp only [readTexts, writeTexts, List.append_assoc, count, items, bind, Except.bind]

theorem short_device {device : Device} (numbered : device.Numbered) : Short device.text := by
  obtain ⟨deviceClass, index⟩ := device
  cases index with
  | none => cases deviceClass <;> decide +kernel
  | some index =>
      have below : index < 10 ^ 10 := Nat.lt_trans (numbered index rfl) (by decide)
      have digits := (Nat.length_toDigits_le_iff (by decide) (by decide)).mpr below
      have raw := Text.length_encode_le (Nat.toDigits 10 index)
      have name : (Text.encode deviceClass.name).length = 3 := by cases deviceClass <;> rfl
      have colon : (Text.encode ":").length = 1 := rfl
      have room : Bytes.fieldLimit 4 = 0x100000000 := rfl
      simp only [Short, Device.text, Nat.toString_eq_ofList_toDigits, Text.encode_append,
        List.length_append]
      omega

theorem reads_device {device : Device} (numbered : device.Numbered) :
    Reads readDevice device (writeText device.text) := by
  intro rest
  have text := reads_text (short_device numbered) rest
  simp only [readDevice, text, Device.ofText?_text numbered, bind, Except.bind, pure, Except.pure]

end Encoding

end InferenceStore
