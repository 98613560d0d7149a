import InferenceStore.Text.Utf8

/-
Keywords and names of the command language compare without regard to ASCII case.
Letters outside ASCII are never folded.
-/

namespace InferenceStore.Text

def lowerByte (byte : UInt8) : UInt8 :=
  if 65 ≤ byte.toNat ∧ byte.toNat ≤ 90 then byte + 32 else byte

def upperByte (byte : UInt8) : UInt8 :=
  if 97 ≤ byte.toNat ∧ byte.toNat ≤ 122 then byte - 32 else byte

def sameIgnoringCase (left right : Bytes) : Bool :=
  left.map lowerByte == right.map lowerByte

def isKeyword (argument : Bytes) (keyword : String) : Bool :=
  sameIgnoringCase argument (encode keyword)

/-- Core's case map of a character knows ASCII alone, which is the rule wanted here. -/
def upper (text : String) : String := text.toUpper

end InferenceStore.Text
