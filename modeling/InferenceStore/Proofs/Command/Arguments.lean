import InferenceStore.Command.Arguments
import InferenceStore.Proofs.Command.Runs

/-
What readers of arguments accept. Each statement is exact: a reader succeeds on the words that
spell its result followed by any rest, and on nothing else. So a command can be taken apart into
the words of its parts, and put together again from them.
-/

namespace InferenceStore

open Outcome

namespace Text

theorem encode_injective : Function.Injective encode := by
  intro left right same
  have decoded := decode?_encode left
  rw [same, decode?_encode] at decoded
  exact (Option.some.inj decoded).symm

theorem isKeyword_encode (keyword : String) : isKeyword (encode keyword) keyword = true :=
  beq_self_eq_true _

theorem isKeyword_unique {argument : Bytes} {left right : String}
    (first : isKeyword argument left = true) (second : isKeyword argument right = true) :
    (encode left).map lowerByte = (encode right).map lowerByte :=
  (eq_of_beq first).symm.trans (eq_of_beq second)

/-- A search among things with different keywords finds the one that the argument names. -/
theorem find?_isKeyword_iff {α : Type} {all : List α} {keyword : α → String}
    (listed : ∀ item, item ∈ all)
    (distinct : ∀ left right, (encode (keyword left)).map lowerByte =
      (encode (keyword right)).map lowerByte → left = right)
    {argument : Bytes} {item : α} :
    (all.find? fun item => isKeyword argument (keyword item)) = some item ↔
      isKeyword argument (keyword item) = true := by
  have suits {other : α} (found : (all.find? fun item => isKeyword argument (keyword item)) =
      some other) : isKeyword argument (keyword other) = true :=
    List.find?_some (p := fun item => isKeyword argument (keyword item)) found
  refine ⟨suits, fun named => ?_⟩
  cases found : all.find? fun item => isKeyword argument (keyword item) with
  | none => exact absurd named (List.find?_eq_none.mp found item (listed item))
  | some other => rw [distinct other item (isKeyword_unique (suits found) named)]

end Text

theorem Decimal.positive?_eq_some_iff {text : Bytes} {n : Nat} :
    positive? text = some n ↔ 0 < n ∧ integer? text = some (n : Int) := by
  unfold positive?
  constructor
  · intro read
    split at read
    · rename_i m found
      cases read
      exact ⟨Nat.succ_pos m, found⟩
    · cases read
  · rintro ⟨above, found⟩
    obtain ⟨m, rfl⟩ := Nat.exists_eq_add_one_of_ne_zero (Nat.ne_of_gt above)
    rw [found]

namespace Command

variable {arguments rest : List Bytes} {argument : Bytes} {names : List String}

theorem text_eq_ok_iff {name : String} :
    text argument = .ok name ↔ argument = Text.encode name := by
  unfold text
  split
  · rename_i content decoded
    rw [Text.decode?_eq_some_iff] at decoded
    rw [← decoded]
    constructor
    · intro same
      rw [Except.ok.inj same]
    · intro same
      rw [Text.encode_injective same]
  · rename_i undecoded
    constructor
    · nofun
    · intro same
      rw [same, Text.decode?_encode] at undecoded
      cases undecoded

theorem texts_eq_ok_iff : texts arguments = .ok names ↔ arguments = names.map Text.encode := by
  induction arguments generalizing names with
  | nil =>
      rw [texts, Except.ok.injEq]
      cases names with
      | nil => simp
      | cons name others => simp
  | cons argument others ih =>
      constructor
      · intro read
        obtain ⟨head, first, read⟩ := bind_eq_ok.mp read
        obtain ⟨tail, behind, read⟩ := bind_eq_ok.mp read
        cases read
        rw [List.map_cons, text_eq_ok_iff.mp first, ih.mp behind]
      · intro spelled
        cases names with
        | nil => cases spelled
        | cons name tail =>
            obtain ⟨first, behind⟩ := List.cons.inj spelled
            exact bind_eq_ok.mpr ⟨name, text_eq_ok_iff.mpr first,
              bind_eq_ok.mpr ⟨tail, ih.mpr behind, rfl⟩⟩

theorem take?_eq_some_iff {count : Nat} {taken : List Bytes} :
    take? count arguments = some (taken, rest) ↔
      taken.length = count ∧ arguments = taken ++ rest := by
  constructor
  · intro found
    have length := (length_of_take? found).1
    unfold take? at found
    split at found
    · cases found
    · cases found
      exact ⟨length, (List.take_append_drop count arguments).symm⟩
  · rintro ⟨rfl, rfl⟩
    have enough : ¬ (taken ++ rest).length < taken.length := by
      rw [List.length_append]
      omega
    rw [take?, if_neg enough, List.take_left, List.drop_left]

theorem take?_texts_iff {count : Nat} :
    (∃ taken, take? count arguments = some (taken, rest) ∧ texts taken = .ok names) ↔
      names.length = count ∧ arguments = names.map Text.encode ++ rest := by
  constructor
  · rintro ⟨taken, cut, spelled⟩
    obtain ⟨length, rfl⟩ := take?_eq_some_iff.mp cut
    obtain rfl := texts_eq_ok_iff.mp spelled
    exact ⟨(List.length_map _).symm.trans length, rfl⟩
  · rintro ⟨length, rfl⟩
    exact ⟨_, take?_eq_some_iff.mpr ⟨(List.length_map _).trans length, rfl⟩,
      texts_eq_ok_iff.mpr rfl⟩

theorem isChain_iff : isChain argument = true ↔ argument = chain := beq_iff_eq

theorem not_isChain_iff : isChain argument = false ↔ argument ≠ chain := beq_eq_false_iff_ne

theorem any_isChain_iff : (names.map Text.encode).any isChain = false ↔ "|>" ∉ names := by
  rw [List.any_map, List.any_eq_false]
  constructor
  · intro apart member
    exact apart _ member (isChain_iff.mpr rfl)
  · intro apart name member found
    have same : name = "|>" := Text.encode_injective (isChain_iff.mp found)
    exact apart (same ▸ member)

theorem timeout_eq_ok_iff {milliseconds : Nat} :
    Command.timeout argument = .ok milliseconds ↔
      Decimal.positive? argument = some milliseconds := by
  unfold Command.timeout
  split <;> simp_all

end Command

end InferenceStore
