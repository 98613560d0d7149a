import InferenceStore.Encoding.Model
import InferenceStore.Entity.Script

/-
The stored form of a script: version, device, tag, entry points, source. Version 1 had no entry
points and is read as if every function were one; version 2 is written.
-/

namespace InferenceStore.Encoding

def scriptVersion : Nat := 2

def writeScript (device : Device) (tag : String) (entryPoints : List String)
    (source : String) : Bytes :=
  Bytes.ofWord 4 scriptVersion ++
    writeText device.text ++
    writeText tag ++
    writeTexts entryPoints ++
    writeText source

def readEntryPoints (version : Nat) : Reader (Option (List String)) := fun data =>
  if version = 1 then .ok (none, data)
  else do
    let (names, rest) ← readTexts data
    pure (some names, rest)

def readScript (data : Bytes) : Outcome ScriptDefinition := do
  let (version, afterVersion) ← readWord 4 data
  if version = 0 ∨ scriptVersion < version then
    .error (.encoding (.unsupportedVersion version))
  else
    let (device, afterDevice) ← readDevice afterVersion
    let (tag, afterTag) ← readText afterDevice
    let (entryPoints, afterEntryPoints) ← readEntryPoints version afterTag
    let (source, _) ← readText afterEntryPoints
    pure ⟨device, tag, entryPoints, source⟩

end InferenceStore.Encoding
