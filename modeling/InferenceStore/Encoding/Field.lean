import InferenceStore.Error
import InferenceStore.Text.Utf8

/-
The fields that stored encodings are made of: little-endian words, byte strings behind a
length, texts and lists of texts. A reader takes a field off the front and returns the rest;
it fails when the bytes run out, and never looks behind its field.
-/

namespace InferenceStore.Encoding

abbrev Reader (α : Type) := Bytes → Outcome (α × Bytes)

def truncated : Error := .encoding .truncated

def readBytes (length : Nat) : Reader Bytes := fun data =>
  if data.length < length then .error truncated
  else .ok (data.take length, data.drop length)

def readWord (width : Nat) : Reader Nat := fun data => do
  let (raw, rest) ← readBytes width data
  pure (Bytes.toWord raw, rest)

def readText : Reader String := fun data => do
  let (length, afterLength) ← readWord 4 data
  let (raw, rest) ← readBytes length afterLength
  match Text.decode? raw with
  | some text => pure (text, rest)
  | none => .error (.encoding .notText)

def readMany {α : Type} (item : Reader α) : Nat → Reader (List α)
  | 0 => fun data => .ok ([], data)
  | count + 1 => fun data => do
      let (value, afterValue) ← item data
      let (values, rest) ← readMany item count afterValue
      pure (value :: values, rest)

def readTexts : Reader (List String) := fun data => do
  let (count, afterCount) ← readWord 4 data
  readMany readText count afterCount

def writeText (text : String) : Bytes :=
  let raw := Text.encode text
  Bytes.ofWord 4 raw.length ++ raw

def writeTexts (texts : List String) : Bytes :=
  Bytes.ofWord 4 texts.length ++ texts.flatMap writeText

end InferenceStore.Encoding
