import InferenceStore.Number.Decimal
import InferenceStore.Text.Utf8
import Mathlib.Tactic.IntervalCases

/-
Numbers as texts. The decimal text of a natural number is read as that number wherever it is below
the limit, as its digits are ASCII and no sign stands in front of them.
-/

namespace InferenceStore

namespace Text

theorem encode_append (left right : String) :
    encode (left ++ right) = encode left ++ encode right := by
  simp [encode, String.toUTF8]

theorem encode_ofList (characters : List Char) :
    encode (String.ofList characters) = characters.flatMap String.utf8EncodeChar := by
  simp [encode, String.toUTF8, List.utf8Encode]

theorem length_encode_le (characters : List Char) :
    (encode (String.ofList characters)).length ≤ 4 * characters.length := by
  rw [encode_ofList]
  induction characters with
  | nil => exact Nat.zero_le _
  | cons character others ih =>
      have single : (String.utf8EncodeChar character).length ≤ 4 := by
        rw [String.length_utf8EncodeChar]
        exact Char.utf8Size_le_four character
      rw [List.flatMap_cons, List.length_append, List.length_cons]
      omega

end Text

namespace Decimal

theorem value_snoc (digits : List Nat) (last : Nat) :
    value (digits ++ [last]) = 10 * value digits + last := by
  rw [value, List.foldl_append]
  rfl

theorem digits?_digitChar {digit : Nat} (single : digit < 10) :
    digits? (String.utf8EncodeChar digit.digitChar) = some [digit] := by
  interval_cases digit <;> rfl

theorem digits?_toDigits (n : Nat) : ∃ digits, digits ≠ [] ∧ value digits = n ∧
    digits? ((Nat.toDigits 10 n).flatMap String.utf8EncodeChar) = some digits := by
  induction n using Nat.strong_induction_on with
  | _ n ih =>
      by_cases single : n < 10
      · refine ⟨[n], List.cons_ne_nil n [], Nat.zero_add n, ?_⟩
        rw [Nat.toDigits_of_lt_base single, List.flatMap_singleton, digits?_digitChar single]
      · have several : 10 ≤ n := Nat.le_of_not_lt single
        obtain ⟨front, _, same, read⟩ := ih (n / 10) (Nat.div_lt_self (by omega) (by omega))
        have last := digits?_digitChar (Nat.mod_lt n (by omega : 0 < 10))
        refine ⟨front ++ [n % 10], List.append_ne_nil_of_right_ne_nil _ (List.cons_ne_nil _ _), ?_,
          ?_⟩
        · rw [value_snoc, same, Nat.div_add_mod]
        · rw [Nat.toDigits_of_base_le (by omega) several, List.flatMap_append,
            List.flatMap_singleton]
          unfold digits? at read last ⊢
          rw [List.mapM_append, read, last]
          rfl

theorem numeral?_text (n : Nat) : numeral? (Text.encode (toString n)) = some n := by
  obtain ⟨digits, several, same, read⟩ := digits?_toDigits n
  rw [Nat.toString_eq_ofList_toDigits, Text.encode_ofList, numeral?, read, if_neg, Option.map_some,
    same]
  intro empty
  rw [List.isEmpty_iff.mp empty] at read
  cases read
  exact several rfl

theorem natural?_of_numeral {text : Bytes} {n limit : Nat} (read : numeral? text = some n)
    (below : n < limit) : natural? limit text = some n := by
  have unsigned : natural? limit text = (numeral? text).filter (· < limit) := by
    unfold natural?
    split
    · cases read
    · rfl
  rw [unsigned, read]
  exact Option.filter_some_pos (decide_eq_true below)

theorem natural?_text {n limit : Nat} (below : n < limit) :
    natural? limit (Text.encode (toString n)) = some n :=
  natural?_of_numeral (numeral?_text n) below

end Decimal

end InferenceStore
