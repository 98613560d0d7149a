import InferenceStore.Bytes

/-
Decimal integers as arguments write them: an optional sign, then one or more ASCII digits,
leading zeros allowed, and nothing else. A plus sign is always allowed, a minus sign only
where the number may be negative. A number outside the limits is refused, not clamped.
-/

namespace InferenceStore.Decimal

def digit? (byte : UInt8) : Option Nat :=
  if 48 ≤ byte.toNat ∧ byte.toNat ≤ 57 then some (byte.toNat - 48) else none

def digits? (text : Bytes) : Option (List Nat) := text.mapM digit?

def value (digits : List Nat) : Nat := digits.foldl (fun total digit => 10 * total + digit) 0

def numeral? (text : Bytes) : Option Nat :=
  if text.isEmpty then none else (digits? text).map value

def natural? (limit : Nat) (text : Bytes) : Option Nat :=
  let unsigned :=
    match text with
    | 43 :: rest => rest
    | _ => text
  (numeral? unsigned).filter (· < limit)

/-- An integer of 64 bits. -/
def integer? (text : Bytes) : Option Int :=
  let number : Option Int :=
    match text with
    | 43 :: rest => (numeral? rest).map Int.ofNat
    | 45 :: rest => (numeral? rest).map fun magnitude => -Int.ofNat magnitude
    | _ => (numeral? text).map Int.ofNat
  number.filter fun n => -signedLimit ≤ n && n < signedLimit

def size? (text : Bytes) : Option Nat := natural? wordLimit text

def positive? (text : Bytes) : Option Nat :=
  match integer? text with
  | some (.ofNat (n + 1)) => some (n + 1)
  | _ => none

def nonNegative? (text : Bytes) : Option Nat :=
  match integer? text with
  | some (.ofNat n) => some n
  | _ => none

end InferenceStore.Decimal
