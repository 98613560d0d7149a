import InferenceStore.Proofs.Number.Decimal
import Mathlib.Data.List.Induction
import Mathlib.Data.Nat.Digits.Defs

/-
Integers as texts. What the readers accept is compared with what decimal notation means: a text of
digits stands for the sum of its digits by their places, zeros in front do not count, and a sign
stands before the first digit or not at all.
-/

namespace InferenceStore.Decimal

def digitByte (digit : Nat) : UInt8 := UInt8.ofNat (48 + digit)

/-- The texts of a natural number: one or more digits, the last of which counts ones. -/
def SpellsNatural (text : Bytes) (n : Nat) : Prop :=
  ∃ digits : List Nat, digits ≠ [] ∧ (∀ digit ∈ digits, digit < 10) ∧
    text = digits.map digitByte ∧ n = Nat.ofDigits 10 digits.reverse

/-- The texts of an integer, of any size. -/
inductive Spells : Bytes → Int → Prop
  | plain {text : Bytes} {n : Nat} (digits : SpellsNatural text n) : Spells text n
  | plus {text : Bytes} {n : Nat} (digits : SpellsNatural text n) : Spells (43 :: text) n
  | minus {text : Bytes} {n : Nat} (digits : SpellsNatural text n) : Spells (45 :: text) (-n)

variable {byte : UInt8} {digit n : Nat} {text : Bytes} {digits : List Nat}

/-! ### Digits -/

theorem toNat_digitByte (single : digit < 10) : (digitByte digit).toNat = 48 + digit := by
  rw [digitByte, UInt8.toNat_ofNat']
  omega

theorem digit?_eq_some_iff : digit? byte = some digit ↔ digit < 10 ∧ byte = digitByte digit := by
  unfold digit?
  constructor
  · intro read
    split at read
    · cases read
      refine ⟨by omega, UInt8.toNat_inj.mp ?_⟩
      rw [toNat_digitByte (by omega)]
      omega
    · cases read
  · rintro ⟨single, rfl⟩
    rw [toNat_digitByte single, if_pos (by omega), Nat.add_sub_cancel_left]

theorem digits?_eq_some_iff :
    digits? text = some digits ↔ (∀ digit ∈ digits, digit < 10) ∧ text = digits.map digitByte := by
  unfold digits?
  induction text generalizing digits with
  | nil => cases digits <;> simp [List.mapM_nil]
  | cons byte rest ih =>
      rw [List.mapM_cons]
      constructor
      · intro read
        obtain ⟨first, one, read⟩ := Option.bind_eq_some_iff.mp read
        obtain ⟨others, more, read⟩ := Option.bind_eq_some_iff.mp read
        cases read
        obtain ⟨single, rfl⟩ := digit?_eq_some_iff.mp one
        obtain ⟨singles, rfl⟩ := ih.mp more
        exact ⟨List.forall_mem_cons.mpr ⟨single, singles⟩, rfl⟩
      · rintro ⟨singles, spelled⟩
        cases digits with
        | nil => cases spelled
        | cons first others =>
            obtain ⟨one, more⟩ := List.cons.inj spelled
            obtain ⟨single, behind⟩ := List.forall_mem_cons.mp singles
            exact Option.bind_eq_some_iff.mpr ⟨first, digit?_eq_some_iff.mpr ⟨single, one⟩,
              Option.bind_eq_some_iff.mpr ⟨others, ih.mpr ⟨behind, more⟩, rfl⟩⟩

theorem value_eq_ofDigits (digits : List Nat) : value digits = Nat.ofDigits 10 digits.reverse := by
  induction digits using List.reverseRecOn with
  | nil => rfl
  | append_singleton front last ih =>
      rw [value_snoc, ih, List.reverse_append, List.reverse_singleton, List.singleton_append,
        Nat.ofDigits_cons, Nat.add_comm]

theorem numeral?_eq_some_iff : numeral? text = some n ↔ SpellsNatural text n := by
  unfold numeral?
  constructor
  · intro read
    split at read
    · cases read
    · rename_i filled
      obtain ⟨digits, found, rfl⟩ := Option.map_eq_some_iff.mp read
      obtain ⟨singles, rfl⟩ := digits?_eq_some_iff.mp found
      refine ⟨digits, ?_, singles, rfl, value_eq_ofDigits digits⟩
      rintro rfl
      exact filled rfl
  · rintro ⟨digits, nonempty, singles, rfl, rfl⟩
    rw [if_neg (by simpa using nonempty), digits?_eq_some_iff.mpr ⟨singles, rfl⟩, Option.map_some,
      value_eq_ofDigits]

/-! ### Signs -/

def signed? (text : Bytes) : Option Int :=
  match text with
  | 43 :: rest => (numeral? rest).map Int.ofNat
  | 45 :: rest => (numeral? rest).map fun magnitude => -Int.ofNat magnitude
  | _ => (numeral? text).map Int.ofNat

theorem integer?_eq (text : Bytes) :
    integer? text = (signed? text).filter fun n => -signedLimit ≤ n && n < signedLimit := rfl

theorem signed?_of_numeral (read : numeral? text = some n) : signed? text = some (n : Int) := by
  unfold signed?
  split
  · cases read
  · cases read
  · rw [read]
    rfl

theorem signed?_eq_some_iff {n : Int} : signed? text = some n ↔ Spells text n := by
  constructor
  · intro read
    unfold signed? at read
    split at read
    · obtain ⟨magnitude, found, rfl⟩ := Option.map_eq_some_iff.mp read
      exact .plus (numeral?_eq_some_iff.mp found)
    · obtain ⟨magnitude, found, rfl⟩ := Option.map_eq_some_iff.mp read
      exact .minus (numeral?_eq_some_iff.mp found)
    · obtain ⟨magnitude, found, rfl⟩ := Option.map_eq_some_iff.mp read
      exact .plain (numeral?_eq_some_iff.mp found)
  · intro spelled
    cases spelled with
    | plain digits => exact signed?_of_numeral (numeral?_eq_some_iff.mpr digits)
    | plus digits => rw [signed?, numeral?_eq_some_iff.mpr digits]; rfl
    | minus digits => rw [signed?, numeral?_eq_some_iff.mpr digits]; rfl

theorem Spells.unique {m n : Int} (first : Spells text m) (second : Spells text n) : m = n :=
  Option.some.inj
    ((signed?_eq_some_iff.mpr first).symm.trans (signed?_eq_some_iff.mpr second))

theorem integer?_eq_some_iff {n : Int} :
    integer? text = some n ↔ Spells text n ∧ -signedLimit ≤ n ∧ n < signedLimit := by
  rw [integer?_eq, Option.filter_eq_some_iff, signed?_eq_some_iff, Bool.and_eq_true_iff,
    decide_eq_true_iff, decide_eq_true_iff]

theorem spells_text (n : Int) : Spells (Text.encode (toString n)) n := by
  cases n with
  | ofNat n => exact .plain (numeral?_eq_some_iff.mp (numeral?_text n))
  | negSucc n =>
      have printed : Text.encode (toString (Int.negSucc n)) =
          45 :: Text.encode (toString (n + 1)) := Text.encode_append "-" _
      rw [printed]
      exact .minus (numeral?_eq_some_iff.mp (numeral?_text (n + 1)))

end InferenceStore.Decimal
