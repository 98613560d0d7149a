/-
Byte strings and the little-endian words inside them. A word has a width in bytes and
a natural value; writing reduces the value modulo the limit of the width, reading never fails.
Sizes and counters of the store are words of eight bytes.
-/

namespace InferenceStore

abbrev Bytes := List UInt8

/-- One more than the largest size, index or counter. -/
def wordLimit : Nat := 0x10000000000000000

def signedLimit : Int := 0x8000000000000000

/-- Sums of sizes and counters are kept modulo the word limit. -/
def wrapWord (value : Nat) : Nat := value % wordLimit

def signedWord (value : Nat) : Int := Int.bmod value wordLimit

def sizeSum : List Nat → Nat
  | [] => 0
  | size :: rest => size + sizeSum rest

def sizeProduct : List Nat → Nat
  | [] => 1
  | size :: rest => size * sizeProduct rest

def wordSum (sizes : List Nat) : Nat := wrapWord (sizeSum sizes)

theorem sizeSum_append (front back : List Nat) :
    sizeSum (front ++ back) = sizeSum front + sizeSum back := by
  induction front with
  | nil => exact (Nat.zero_add _).symm
  | cons size rest ih => rw [List.cons_append, sizeSum, sizeSum, ih, Nat.add_assoc]

theorem sizeSum_sublist {part whole : List Nat} (within : part.Sublist whole) :
    sizeSum part ≤ sizeSum whole := by
  induction within with
  | slnil => exact Nat.le_refl _
  | cons size _ ih => exact Nat.le_trans ih (Nat.le_add_left ..)
  | cons_cons size _ ih => exact Nat.add_le_add_left ih size

namespace Bytes

def fieldLimit : Nat → Nat
  | 0 => 1
  | width + 1 => 256 * fieldLimit width

def ofWord : Nat → Nat → Bytes
  | 0, _ => []
  | width + 1, value => UInt8.ofNat value :: ofWord width (value / 256)

def toWord : Bytes → Nat
  | [] => 0
  | byte :: rest => byte.toNat + 256 * toWord rest

/-- Two's complement of an integer in a field of `width` bytes; high bits are dropped. -/
def ofInteger (width : Nat) (value : Int) : Bytes :=
  ofWord width (value % (fieldLimit width : Nat)).toNat

def toInteger (bytes : Bytes) : Int :=
  Int.bmod (toWord bytes) (fieldLimit bytes.length)

theorem fieldLimit_eight : fieldLimit 8 = wordLimit := rfl

theorem length_ofWord (width value : Nat) : (ofWord width value).length = width := by
  induction width generalizing value with
  | zero => rfl
  | succ width ih => simp [ofWord, ih]

theorem toWord_ofWord (width value : Nat) :
    toWord (ofWord width value) = value % fieldLimit width := by
  induction width generalizing value with
  | zero => exact (Nat.mod_one value).symm
  | succ width ih =>
      have split : value % (256 * fieldLimit width) =
          value % 256 + 256 * (value / 256 % fieldLimit width) := Nat.mod_mul
      simp only [ofWord, toWord, ih, fieldLimit, UInt8.toNat_ofNat']
      exact split.symm

theorem toWord_lt (bytes : Bytes) : toWord bytes < fieldLimit bytes.length := by
  induction bytes with
  | nil => exact Nat.one_pos
  | cons byte rest ih =>
      have small := byte.toNat_lt
      simp only [toWord, List.length_cons, fieldLimit]
      omega

theorem ofWord_toWord (bytes : Bytes) : ofWord bytes.length (toWord bytes) = bytes := by
  induction bytes with
  | nil => rfl
  | cons byte rest ih =>
      have small := byte.toNat_lt
      have low : UInt8.ofNat (byte.toNat + 256 * toWord rest) = byte := by
        apply UInt8.toNat_inj.mp
        rw [UInt8.toNat_ofNat']
        omega
      have high : (byte.toNat + 256 * toWord rest) / 256 = toWord rest := by omega
      simp only [toWord, List.length_cons, ofWord, low, high, ih]

end Bytes

end InferenceStore
