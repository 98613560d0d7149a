import InferenceStore.Keyspace.Slot
import Mathlib.Algebra.Field.ZMod
import Mathlib.RingTheory.AdjoinRoot

/-
Checksums as remainders. Bits are read as the coefficients of a polynomial over the field of two
elements, the first bit of a byte string as that of its highest power. To move a word one place to
the left and to reduce it is to multiply by the variable and to divide by the generator, so what is
left behind the last byte is the remainder of the whole string, sixteen places further left.
-/

namespace InferenceStore.Slot

open Polynomial

variable {width : Nat}

/-! ### Bits as coefficients -/

/-- The bits of a word, the lowest one as the constant. -/
noncomputable def ofBits (bits : BitVec width) : (ZMod 2)[X] :=
  ∑ i ∈ Finset.range width, if bits.getLsbD i then X ^ i else 0

/-- The bits of a byte string in the order in which they stand, the highest power first. -/
noncomputable def ofBytes (data : Bytes) : (ZMod 2)[X] :=
  data.foldl (fun high byte => high * X ^ 8 + ofBits byte.toBitVec) 0

noncomputable def divisor : (ZMod 2)[X] := X ^ 16 + X ^ 12 + X ^ 5 + 1

theorem coeff_ofBits (bits : BitVec width) (n : Nat) :
    (ofBits bits).coeff n = if bits.getLsbD n then 1 else 0 := by
  have term (i : Nat) : (if bits.getLsbD i then X ^ i else 0 : (ZMod 2)[X]).coeff n =
      if i = n then (if bits.getLsbD n then 1 else 0) else 0 := by
    by_cases same : i = n
    · subst same
      cases bits.getLsbD i <;> simp
    · cases bits.getLsbD i <;> simp [coeff_X_pow, same, Ne.symm same]
  rw [ofBits, finsetSum_coeff, Finset.sum_congr rfl fun i _ => term i, Finset.sum_ite_eq']
  split
  · rfl
  · rename_i outside
    have beyond : bits.getLsbD n = false :=
      BitVec.getLsbD_of_ge bits n (Nat.le_of_not_lt fun within =>
        outside (Finset.mem_range.mpr within))
    rw [beyond]
    rfl

theorem ofBits_injective : Function.Injective (@ofBits width) := by
  intro left right same
  apply BitVec.eq_of_getLsbD_eq
  intro n _
  have coefficients := congrArg (fun p => coeff p n) same
  simp only [coeff_ofBits] at coefficients
  cases first : left.getLsbD n <;> cases second : right.getLsbD n <;> simp_all

theorem degree_ofBits_lt (bits : BitVec width) : (ofBits bits).degree < width := by
  rw [degree_lt_iff_coeff_zero]
  intro n outside
  rw [coeff_ofBits, BitVec.getLsbD_of_ge bits n outside]
  rfl

theorem ofBits_xor (left right : BitVec width) :
    ofBits (left ^^^ right) = ofBits left + ofBits right := by
  ext n
  rw [coeff_add, coeff_ofBits, coeff_ofBits, coeff_ofBits, BitVec.getLsbD_xor]
  cases left.getLsbD n <;> cases right.getLsbD n <;> decide

theorem ofBits_zero : ofBits (BitVec.ofNat width 0) = 0 := by
  ext n
  rw [coeff_ofBits, BitVec.getLsbD_zero, coeff_zero]
  rfl

/-- What leaves a word at the left is its highest bit. -/
theorem X_mul_ofBits (bits : BitVec width) :
    X * ofBits bits = ofBits (bits <<< 1) + if bits.msb then X ^ width else 0 := by
  ext n
  have top : (if bits.msb then X ^ width else 0 : (ZMod 2)[X]).coeff n =
      if n = width ∧ bits.msb then 1 else 0 := by
    cases bits.msb <;> simp [coeff_X_pow]
  rw [coeff_add, top, coeff_ofBits, BitVec.getLsbD_shiftLeft]
  cases n with
  | zero =>
      rw [coeff_X_mul_zero]
      cases width with
      | zero => simp [BitVec.msb]
      | succ width => simp
  | succ n =>
      rw [coeff_X_mul, coeff_ofBits]
      rcases Nat.lt_trichotomy (n + 1) width with inside | edge | outside
      · simp [inside, Nat.ne_of_lt inside]
      · subst edge
        simp [BitVec.msb_eq_getLsbD_last]
      · have beyond : bits.getLsbD n = false := BitVec.getLsbD_of_ge bits n (by omega)
        simp [beyond, Nat.ne_of_gt outside]

theorem ofBits_entered (byte : BitVec 8) :
    ofBits (byte.setWidth 16 <<< 8) = ofBits byte * X ^ 8 := by
  ext n
  rw [coeff_ofBits, coeff_mul_X_pow', coeff_ofBits, BitVec.getLsbD_shiftLeft,
    BitVec.getLsbD_setWidth]
  by_cases low : n < 8
  · simp [low, Nat.not_le.mpr low]
  · by_cases inside : n < 16
    · have within : n - 8 < 16 := by omega
      simp [low, inside, within, Nat.le_of_not_lt low]
    · have beyond : byte.getLsbD (n - 8) = false := BitVec.getLsbD_of_ge byte (n - 8) (by omega)
      simp [beyond]

/-! ### The generator -/

theorem divisor_eq : divisor = X ^ 16 + ofBits generator := by
  have low : ofBits generator = X ^ 12 + X ^ 5 + 1 := by
    simp [ofBits, generator, Finset.sum_range_succ]
    ring
  rw [low, divisor]
  ring

theorem monic_divisor : divisor.Monic := by
  unfold divisor
  monicity!

theorem degree_divisor : divisor.degree = 16 := by
  unfold divisor
  compute_degree!

/-- What is left of a polynomial when multiples of the divisor do not count. -/
noncomputable def residue : (ZMod 2)[X] →+* AdjoinRoot divisor := AdjoinRoot.mk divisor

theorem residue_divisor : residue divisor = 0 := AdjoinRoot.mk_self

theorem remainder_of_residue {p : (ZMod 2)[X]} {bits : BitVec 16}
    (same : residue (ofBits bits) = residue p) : p %ₘ divisor = ofBits bits := by
  have remainders := congrArg (AdjoinRoot.modByMonicHom monic_divisor) same
  unfold residue at remainders
  rw [AdjoinRoot.modByMonicHom_mk, AdjoinRoot.modByMonicHom_mk] at remainders
  rw [← remainders, modByMonic_eq_self_iff monic_divisor, degree_divisor]
  exact degree_ofBits_lt bits

/-! ### Steps of the checksum -/

/-- One place to the left is one step of a long division. -/
theorem residue_shift (bits : BitVec 16) :
    residue (ofBits (shift bits)) = residue (X * ofBits bits) := by
  have moved := X_mul_ofBits bits
  unfold shift
  cases top : bits.msb with
  | false =>
      rw [top] at moved
      simp only [Bool.false_eq_true, if_false, add_zero] at moved ⊢
      rw [moved]
  | true =>
      rw [top] at moved
      simp only [if_true] at moved ⊢
      have subtracted : ofBits ((bits <<< 1) ^^^ generator) = X * ofBits bits + divisor := by
        rw [moved, divisor_eq, ofBits_xor]
        calc ofBits (bits <<< 1) + ofBits generator
            = ofBits (bits <<< 1) + ofBits generator + 0 := (add_zero _).symm
          _ = ofBits (bits <<< 1) + ofBits generator + (X ^ 16 + X ^ 16) := by
              rw [CharTwo.add_self_eq_zero]
          _ = ofBits (bits <<< 1) + X ^ 16 + (X ^ 16 + ofBits generator) := by ring
      rw [subtracted, map_add, residue_divisor, add_zero]

theorem residue_shifts (n : Nat) (bits : BitVec 16) :
    residue (ofBits (shifts n bits)) = residue (X ^ n * ofBits bits) := by
  induction n generalizing bits with
  | zero => rw [shifts, pow_zero, one_mul]
  | succ n ih => rw [shifts, ih, map_mul, residue_shift, ← map_mul, ← mul_assoc, ← pow_succ]

theorem residue_feed (bits : BitVec 16) (byte : UInt8) :
    residue (ofBits (feed bits byte)) =
      residue (X ^ 8 * (ofBits bits + ofBits byte.toBitVec * X ^ 8)) := by
  rw [feed, residue_shifts, ofBits_xor, ofBits_entered]

theorem residue_foldl (data : Bytes) {bits : BitVec 16} {high : (ZMod 2)[X]}
    (same : residue (ofBits bits) = residue (high * X ^ 16)) :
    residue (ofBits (data.foldl feed bits)) =
      residue (data.foldl (fun high byte => high * X ^ 8 + ofBits byte.toBitVec) high * X ^ 16) := by
  induction data generalizing bits high with
  | nil => exact same
  | cons byte rest ih =>
      apply ih
      calc residue (ofBits (feed bits byte))
          = residue (X ^ 8) * (residue (ofBits bits) + residue (ofBits byte.toBitVec * X ^ 8)) := by
            rw [residue_feed, map_mul, map_add]
        _ = residue (X ^ 8 * (high * X ^ 16 + ofBits byte.toBitVec * X ^ 8)) := by
            rw [same, ← map_add, ← map_mul]
        _ = residue ((high * X ^ 8 + ofBits byte.toBitVec) * X ^ 16) := by
            apply congrArg
            ring

theorem remainder_eq (data : Bytes) :
    (ofBytes data * X ^ 16) %ₘ divisor = ofBits (checksum data) := by
  apply remainder_of_residue
  apply residue_foldl
  rw [ofBits_zero, zero_mul]

end InferenceStore.Slot
