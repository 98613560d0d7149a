import InferenceStore.Error
import InferenceStore.Text.Utf8

/-
Cluster slots. A key is hashed by a cyclic redundancy check of sixteen bits; if it holds a
nonempty part between the first opening brace and the next closing one, that part alone is
hashed, so that keys can be made to share a slot.
-/

namespace InferenceStore.Slot

def count : Nat := 16384

/-- The generator without its leading term: x^12 + x^5 + 1. -/
def generator : BitVec 16 := 0x1021#16

def shift (remainder : BitVec 16) : BitVec 16 :=
  if remainder.msb then (remainder <<< 1) ^^^ generator else remainder <<< 1

def shifts : Nat → BitVec 16 → BitVec 16
  | 0, remainder => remainder
  | n + 1, remainder => shifts n (shift remainder)

def feed (remainder : BitVec 16) (byte : UInt8) : BitVec 16 :=
  shifts 8 (remainder ^^^ (byte.toBitVec.setWidth 16 <<< 8))

/-- The remainder of the bytes, most significant bit first, from zero. -/
def checksum (data : Bytes) : BitVec 16 := data.foldl feed 0#16

def openBrace : UInt8 := 123

def closeBrace : UInt8 := 125

/-- What is hashed of a key: the tag in braces, or else the whole key. -/
def hashed (key : Bytes) : Bytes :=
  match key.dropWhile (· != openBrace) with
  | [] => key
  | _ :: rest =>
      let tag := rest.takeWhile (· != closeBrace)
      if tag.isEmpty ∨ tag.length = rest.length then key else tag

def ofKey (key : String) : Nat := (checksum (hashed (Text.encode key))).toNat % count

def common : List String → Outcome (Option Nat)
  | [] => .ok none
  | key :: keys =>
      if keys.all fun other => ofKey other == ofKey key then .ok (some (ofKey key))
      else .error .crossSlot

end InferenceStore.Slot
