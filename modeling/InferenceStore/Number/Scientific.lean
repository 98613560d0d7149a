import InferenceStore.Number.Binary64
import InferenceStore.Number.Decimal
import InferenceStore.Text.Ascii

/-
Decimal fractions with an optional exponent, read as the nearest double precision number.
There is at least one digit before the exponent, on either side of the point; an exponent has
at least one digit of its own. The words `inf`, `infinity` and `nan` are numbers too, in any
case and with a sign.
-/

namespace InferenceStore.Number

structure Scientific where
  negative : Bool
  digits : List Nat
  exponent : Int
  deriving DecidableEq, Repr

namespace Scientific

def leadingDigits : Bytes → List Nat × Bytes
  | [] => ([], [])
  | byte :: rest =>
      match Decimal.digit? byte with
      | none => ([], byte :: rest)
      | some digit =>
          let (digits, remaining) := leadingDigits rest
          (digit :: digits, remaining)

def sign (text : Bytes) : Bool × Bytes :=
  match text with
  | 43 :: rest => (false, rest)
  | 45 :: rest => (true, rest)
  | _ => (false, text)

/-- Digits after the point at which an exponent is beyond every number do not count. -/
def exponentValue (digits : List Nat) : Nat :=
  digits.foldl (fun total digit => if total < 65536 then 10 * total + digit else total) 0

def exponent? : Bytes → Option Int
  | [] => some 0
  | letter :: rest =>
      if letter = 69 ∨ letter = 101 then
        let (negative, text) := sign rest
        match leadingDigits text with
        | ([], _) => none
        | (digits, []) =>
            let magnitude : Int := exponentValue digits
            some (if negative then -magnitude else magnitude)
        | (_, _ :: _) => none
      else none

def fraction (text : Bytes) : List Nat × Bytes :=
  match text with
  | 46 :: rest => leadingDigits rest
  | _ => ([], text)

def unsigned? (negative : Bool) (text : Bytes) : Option Scientific :=
  let (whole, afterWhole) := leadingDigits text
  let (parts, afterParts) := fraction afterWhole
  let digits := whole ++ parts
  if digits.isEmpty then none
  else
    (exponent? afterParts).map fun exponent =>
      { negative := negative
        digits := digits
        exponent := exponent - parts.length }

/-- No number of the format is longer than this before or behind the point. -/
def reach : Nat := 400

/-- The nearest double precision number. Numbers far out of range are decided by their length,
so that no power of ten is larger than the format needs. -/
def toBinary64 (number : Scientific) : Binary64 :=
  let significant := number.digits.dropWhile (· = 0)
  let length : Int := significant.length + number.exponent
  let significand := Decimal.value significant
  let magnitude :=
    if significant.isEmpty ∨ length < -reach then 0
    else if length > reach then binary64.infinity
    else
      match number.exponent with
      | .ofNat up => binary64.nearest (significand * Nat.pow 10 up) 1
      | .negSucc down => binary64.nearest significand (Nat.pow 10 (down + 1))
  Binary64.ofBits (binary64.withSign number.negative magnitude)

end Scientific

def word? (negative : Bool) (text : Bytes) : Option Binary64 :=
  if Text.isKeyword text "inf" || Text.isKeyword text "infinity" then
    some (Binary64.ofDatum (.infinite negative))
  else if Text.isKeyword text "nan" then
    some (Binary64.ofDatum (.undefined negative binary64.quietBit))
  else none

def Binary64.ofText? (text : Bytes) : Option Binary64 :=
  let (negative, rest) := Scientific.sign text
  match word? negative rest with
  | some value => some value
  | none => (Scientific.unsigned? negative rest).map Scientific.toBinary64

end InferenceStore.Number
