import InferenceStore.Bytes
import InferenceStore.Number.Format

/-
Double precision numbers by their bits, with the operations that elementwise models use.
Bits, and not core's floating type, because a stored tensor keeps the bits of undefined
numbers and clients read them back.
-/

namespace InferenceStore.Number

structure Binary64 where
  bits : UInt64
  deriving DecidableEq, Repr, Inhabited

namespace Binary64

def ofBits (bits : Nat) : Binary64 := ⟨UInt64.ofNat bits⟩

def datum (x : Binary64) : Datum := binary64.decode x.bits.toNat

def ofDatum (value : Datum) : Binary64 := ofBits (binary64.encode binary64 value)

def invalid : Binary64 :=
  ofBits (binary64.withSign true (binary64.infinity + binary64.quietBit))

def isUndefined (x : Binary64) : Bool :=
  match x.datum with
  | .undefined _ _ => true
  | _ => false

def ofInteger (value : Int) : Binary64 :=
  ofDatum (.finite (value < 0) value.natAbs 0)

def ofBinary32 (bits : Nat) : Binary64 := ofBits (binary32.convert binary64 bits)

def toBinary32 (x : Binary64) : Nat := binary64.convert binary32 x.bits.toNat

/-- A factor without a defined value decides the product, the first one first. -/
def mul (x y : Binary64) : Binary64 :=
  match x.datum, y.datum with
  | .undefined negative fraction, _ => ofDatum (.undefined negative fraction)
  | _, .undefined negative fraction => ofDatum (.undefined negative fraction)
  | .finite _ 0 _, .infinite _ => invalid
  | .infinite _, .finite _ 0 _ => invalid
  | .infinite s, .infinite t => ofDatum (.infinite (s != t))
  | .infinite s, .finite t _ _ => ofDatum (.infinite (s != t))
  | .finite s _ _, .infinite t => ofDatum (.infinite (s != t))
  | .finite s m e, .finite t n d => ofDatum (.finite (s != t) (m * n) (e + d))

/-- The exact sum of two finite numbers. A sum of zero is negative only if both terms are. -/
def exactSum (s : Bool) (m : Nat) (e : Int) (t : Bool) (n : Nat) (d : Int) : Datum :=
  let place := min e d
  let term (negative : Bool) (significand : Nat) (exponent : Int) : Int :=
    let magnitude : Int := significand * twoTo (exponent - place).toNat
    if negative then -magnitude else magnitude
  let total := term s m e + term t n d
  if total = 0 then .finite (s && t) 0 place
  else .finite (total < 0) total.natAbs place

def add (x y : Binary64) : Binary64 :=
  match x.datum, y.datum with
  | .undefined negative fraction, _ => ofDatum (.undefined negative fraction)
  | _, .undefined negative fraction => ofDatum (.undefined negative fraction)
  | .infinite s, .infinite t => if s = t then ofDatum (.infinite s) else invalid
  | .infinite s, .finite _ _ _ => ofDatum (.infinite s)
  | .finite _ _ _, .infinite t => ofDatum (.infinite t)
  | .finite s m e, .finite t n d => ofDatum (exactSum s m e t n d)

/-- The integer part, clamped to 64 bits; zero for an undefined number. -/
def toInteger (x : Binary64) : Int :=
  let clamp (negative : Bool) (magnitude : Nat) : Int :=
    if negative then max (-signedLimit) (-(magnitude : Int))
    else min (signedLimit - 1) (magnitude : Int)
  match x.datum with
  | .undefined _ _ => 0
  | .infinite negative => clamp negative signedLimit.toNat
  | .finite negative significand exponent =>
      match exponent with
      | .ofNat up => clamp negative (significand * twoTo up)
      | .negSucc down => clamp negative (significand / twoTo (down + 1))

end Binary64

end InferenceStore.Number
