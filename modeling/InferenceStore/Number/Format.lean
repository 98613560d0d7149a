/-
Binary floating point as IEEE 754 lays it out. A format says how many bits the fraction and
the exponent take; a number is decoded to an exact value, and every operation rounds its exact
result once, to the nearest value of the format and to the even one of two equally near.

Bits of a number are a natural number, most significant bit the sign.
-/

namespace InferenceStore.Number

structure Format where
  fractionBits : Nat
  exponentBits : Nat
  deriving DecidableEq, Repr

def twoTo (exponent : Nat) : Nat := Nat.pow 2 exponent

def binary32 : Format := ⟨23, 8⟩

def binary64 : Format := ⟨52, 11⟩

/-- What bits stand for. A finite number is `significand * 2 ^ exponent`. -/
inductive Datum where
  | finite (negative : Bool) (significand : Nat) (exponent : Int)
  | infinite (negative : Bool)
  | undefined (negative : Bool) (fraction : Nat)
  deriving DecidableEq, Repr

namespace Format

def leastExponent (format : Format) : Int :=
  2 - (twoTo (format.exponentBits - 1) : Int) - format.fractionBits

def infinity (format : Format) : Nat :=
  (twoTo format.exponentBits - 1) * twoTo format.fractionBits

def signBit (format : Format) : Nat := twoTo (format.fractionBits + format.exponentBits)

/-- Set in every undefined number that an operation returns. -/
def quietBit (format : Format) : Nat := twoTo (format.fractionBits - 1)

def decode (format : Format) (bits : Nat) : Datum :=
  let fraction := bits % twoTo format.fractionBits
  let biased := bits / twoTo format.fractionBits % twoTo format.exponentBits
  let negative := bits / format.signBit % 2 == 1
  if biased = twoTo format.exponentBits - 1 then
    if fraction = 0 then .infinite negative else .undefined negative fraction
  else if biased = 0 then .finite negative fraction format.leastExponent
  else .finite negative (fraction + twoTo format.fractionBits) (format.leastExponent + biased - 1)

/-- The integer nearest to a quotient, the even one of two equally near. -/
def roundQuotient (numerator denominator : Nat) : Nat :=
  let quotient := numerator / denominator
  let twice := 2 * (numerator % denominator)
  if twice < denominator then quotient
  else if denominator < twice then quotient + 1
  else quotient + quotient % 2

def roundScaled (numerator denominator : Nat) (exponent : Int) : Nat :=
  match exponent with
  | .ofNat up => roundQuotient (numerator * twoTo up) denominator
  | .negSucc down => roundQuotient numerator (denominator * twoTo (down + 1))

/-- The largest `e` with `2 ^ e ≤ numerator / denominator`, both positive. -/
def floorLog (numerator denominator : Nat) : Int :=
  let estimate : Int := (numerator.log2 : Int) - (denominator.log2 : Int)
  let reached :=
    match estimate with
    | .ofNat up => decide (denominator * twoTo up ≤ numerator)
    | .negSucc down => decide (denominator ≤ numerator * twoTo (down + 1))
  if reached then estimate else estimate - 1

def nearest (format : Format) (numerator denominator : Nat) : Nat :=
  if numerator = 0 then 0
  else
    let place :=
      max format.leastExponent (floorLog numerator denominator - format.fractionBits)
    let significand := roundScaled numerator denominator (-place)
    let bits := (place - format.leastExponent).toNat * twoTo format.fractionBits + significand
    min bits format.infinity

def withSign (format : Format) (negative : Bool) (magnitude : Nat) : Nat :=
  if negative then format.signBit + magnitude else magnitude

/-- The number of this format nearest to a datum. An undefined one keeps its sign and the
high bits of its fraction, and is made quiet. -/
def encode (format : Format) (source : Format) : Datum → Nat
  | .finite negative significand exponent =>
      let magnitude :=
        match exponent with
        | .ofNat up => format.nearest (significand * twoTo up) 1
        | .negSucc down => format.nearest significand (twoTo (down + 1))
      format.withSign negative magnitude
  | .infinite negative => format.withSign negative format.infinity
  | .undefined negative fraction =>
      let aligned := fraction * twoTo format.fractionBits / twoTo source.fractionBits
      format.withSign negative (format.infinity + (aligned ||| format.quietBit))

def convert (source target : Format) (bits : Nat) : Nat :=
  target.encode source (source.decode bits)

end Format

end InferenceStore.Number
