import InferenceStore.Proofs.Tensor.Numbers

/-
Integers in fields. Two's complement and the unsigned reading of a field both give back what was
written, if it is in the range of the field, and writing gives back the bytes of a field that was
read. So nothing wraps around as long as the range of the type is kept.
-/

namespace InferenceStore

namespace Bytes

theorem fieldLimit_pos (width : Nat) : 0 < fieldLimit width := by
  induction width with
  | zero => exact Nat.one_pos
  | succ width ih => exact Nat.mul_pos (by decide) ih

variable {width : Nat} {value : Int}

theorem length_ofInteger (width : Nat) (value : Int) : (ofInteger width value).length = width :=
  length_ofWord ..

/-- A written field holds the residue of the value. -/
theorem toWord_ofInteger (width : Nat) (value : Int) :
    (toWord (ofInteger width value) : Int) = value % fieldLimit width := by
  have limit : (0 : Int) < fieldLimit width := Int.natCast_pos.mpr (fieldLimit_pos width)
  have residue : ((value % fieldLimit width).toNat : Int) = value % fieldLimit width :=
    Int.toNat_of_nonneg (Int.emod_nonneg _ (Int.ne_of_gt limit))
  rw [ofInteger, toWord_ofWord, Int.natCast_emod, residue, Int.emod_emod_of_dvd _ (Int.dvd_refl _)]

theorem toInteger_ofInteger (low : -(fieldLimit width : Int) ≤ value * 2)
    (high : value * 2 < fieldLimit width) : toInteger (ofInteger width value) = value := by
  rw [toInteger, length_ofInteger, toWord_ofInteger, Int.emod_bmod]
  exact Int.bmod_eq_of_le_mul_two low high

theorem toWord_ofInteger_of_range (low : 0 ≤ value) (high : value < fieldLimit width) :
    (toWord (ofInteger width value) : Int) = value := by
  rw [toWord_ofInteger, Int.emod_eq_of_lt low high]

private theorem ofInteger_of_residue {raw : Bytes}
    (residue : value % fieldLimit raw.length = toWord raw) : ofInteger raw.length value = raw := by
  rw [ofInteger, residue, Int.toNat_natCast, ofWord_toWord]

theorem ofInteger_toWord (raw : Bytes) : ofInteger raw.length (toWord raw) = raw := by
  apply ofInteger_of_residue
  rw [← Int.natCast_emod, Nat.mod_eq_of_lt (toWord_lt raw)]

theorem ofInteger_toInteger (raw : Bytes) : ofInteger raw.length (toInteger raw) = raw := by
  apply ofInteger_of_residue
  rw [toInteger, Int.bmod_emod, ← Int.natCast_emod, Nat.mod_eq_of_lt (toWord_lt raw)]

theorem toInteger_range (raw : Bytes) :
    -(fieldLimit raw.length / 2 : Int) ≤ toInteger raw ∧
      toInteger raw < (fieldLimit raw.length + 1) / 2 :=
  ⟨Int.le_bmod (fieldLimit_pos _), Int.bmod_lt (fieldLimit_pos _)⟩

end Bytes

namespace DType

variable {dtype : DType} {width : Nat} {low high value : Int} {raw : Bytes}

theorem width_of_range (range : dtype.integerRange? = some (low, high)) :
    ∃ width, dtype.width? = some width := by
  cases dtype <;> first | exact ⟨_, rfl⟩ | cases range

theorem exists_range (exact : dtype.isFloat = false) (numeric : dtype ≠ .string) :
    ∃ low high, dtype.integerRange? = some (low, high) := by
  cases dtype <;> first | exact ⟨_, _, rfl⟩ | exact absurd rfl numeric | cases exact

theorem range_within_word (range : dtype.integerRange? = some (low, high)) :
    -signedLimit ≤ low ∧ high < signedLimit := by
  cases dtype <;> cases range <;> decide

theorem readElement_of_range (range : dtype.integerRange? = some (low, high)) (raw : Bytes) :
    dtype.readElement raw = .integer (dtype.readInteger raw) := by
  cases dtype <;> first | rfl | cases range

theorem length_writeInteger (fixed : dtype.width? = some width) (value : Int) :
    (dtype.writeInteger value).length = width := by
  rw [writeInteger, fixed]
  exact Bytes.length_ofInteger width value

/-- A type reads its elements in two's complement or as they are, and its range is what a field
of its width can hold, but for truth values. -/
theorem reading_of_range (range : dtype.integerRange? = some (low, high))
    (fixed : dtype.width? = some width) :
    ((∀ raw, dtype.readInteger raw = Bytes.toInteger raw) ∧
      low * 2 = -Bytes.fieldLimit width ∧ high * 2 + 2 = Bytes.fieldLimit width) ∨
    ((∀ raw, dtype.readInteger raw = Bytes.toWord raw) ∧
      low = 0 ∧ high < Bytes.fieldLimit width ∧
        (dtype ≠ .bool → high + 1 = Bytes.fieldLimit width)) := by
  cases dtype <;> cases range <;> cases fixed <;>
    first
      | exact .inl ⟨fun _ => rfl, rfl, rfl⟩
      | exact .inr ⟨fun _ => rfl, rfl, by decide, by decide⟩

/-- Nothing in the range of a type is lost in its width. -/
theorem readInteger_writeInteger (range : dtype.integerRange? = some (low, high))
    (above : low ≤ value) (below : value ≤ high) :
    dtype.readInteger (dtype.writeInteger value) = value := by
  obtain ⟨width, fixed⟩ := width_of_range range
  rw [writeInteger, fixed, Option.getD_some]
  rcases reading_of_range range fixed with ⟨signed, least, most⟩ | ⟨plain, least, most, _⟩
  · rw [signed]
    exact Bytes.toInteger_ofInteger (by omega) (by omega)
  · rw [plain]
    exact Bytes.toWord_ofInteger_of_range (by omega) (by omega)

theorem writeInteger_readInteger (range : dtype.integerRange? = some (low, high))
    (fixed : dtype.width? = some raw.length) :
    dtype.writeInteger (dtype.readInteger raw) = raw := by
  rw [writeInteger, fixed, Option.getD_some]
  rcases reading_of_range range fixed with ⟨signed, _⟩ | ⟨plain, _⟩
  · rw [signed, Bytes.ofInteger_toInteger]
  · rw [plain, Bytes.ofInteger_toWord]

theorem readInteger_within (range : dtype.integerRange? = some (low, high))
    (fixed : dtype.width? = some raw.length) (integral : dtype ≠ .bool) :
    low ≤ dtype.readInteger raw ∧ dtype.readInteger raw ≤ high := by
  rcases reading_of_range range fixed with ⟨signed, least, most⟩ | ⟨plain, least, _, most⟩
  · have within := Bytes.toInteger_range raw
    rw [signed]
    omega
  · have within := Bytes.toWord_lt raw
    have full := most integral
    rw [plain]
    omega

end DType

end InferenceStore
