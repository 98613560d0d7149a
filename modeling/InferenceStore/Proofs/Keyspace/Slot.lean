import InferenceStore.Proofs.Command.Arguments
import InferenceStore.Proofs.Keyspace.Checksum
import InferenceStore.Proofs.Number.Decimal
import Mathlib.Data.List.TakeWhile

/-
Slots of keys. The rule names the bytes that count by where they stand in the key: between the
first opening brace and the first closing one behind it, if there are any, and else all of them. The
braces are ASCII, so it makes no difference whether a key is looked at as bytes or as characters.
-/

namespace InferenceStore

/-! ### Braces in texts -/

namespace Text

theorem toNat_of_mem_utf8EncodeChar {character : Char} {byte : UInt8}
    (member : byte ∈ String.utf8EncodeChar character) (ascii : byte.toNat < 128) :
    character.toNat = byte.toNat := by
  unfold String.utf8EncodeChar at member
  dsimp only at member
  split at member
  · rename_i small
    rw [List.mem_singleton.mp member, UInt8.toNat_ofNat']
    change character.val.toNat = character.val.toNat % 2 ^ 8
    omega
  · split at member
    · simp only [List.mem_cons, List.not_mem_nil, or_false] at member
      rcases member with rfl | rfl <;> rw [UInt8.toNat_ofNat'] at ascii <;> omega
    · split at member
      · simp only [List.mem_cons, List.not_mem_nil, or_false] at member
        rcases member with rfl | rfl | rfl <;> rw [UInt8.toNat_ofNat'] at ascii <;> omega
      · simp only [List.mem_cons, List.not_mem_nil, or_false] at member
        rcases member with rfl | rfl | rfl | rfl <;> rw [UInt8.toNat_ofNat'] at ascii <;> omega

theorem mem_of_mem_encode {text : String} {byte : UInt8} (member : byte ∈ encode text)
    (ascii : byte.toNat < 128) : Char.ofNat byte.toNat ∈ text.toList := by
  have spelled := encode_ofList text.toList
  rw [String.ofList_toList] at spelled
  rw [spelled] at member
  obtain ⟨character, inText, inBytes⟩ := List.mem_flatMap.mp member
  rw [← toNat_of_mem_utf8EncodeChar inBytes ascii, Char.ofNat_toNat]
  exact inText

end Text

namespace Slot

open Polynomial

/-! ### Tags -/

/-- What stands between the first opening brace of a key and the first closing one behind it, if
that is anything. -/
structure IsTag (key tag : Bytes) : Prop where
  filled : tag ≠ []
  closed : closeBrace ∉ tag
  placed : ∃ front back, openBrace ∉ front ∧
    key = front ++ openBrace :: (tag ++ closeBrace :: back)

section

variable {byte : UInt8} {front : Bytes}

theorem differs_of_absent (absent : byte ∉ front) : ∀ other ∈ front, (other != byte) = true := by
  intro other member
  apply bne_iff_ne.mpr
  intro same
  exact absent (same ▸ member)

theorem dropWhile_of_absent (absent : byte ∉ front) (back : Bytes) :
    (front ++ byte :: back).dropWhile (· != byte) = byte :: back := by
  rw [List.dropWhile_append_of_pos (differs_of_absent absent), List.dropWhile_cons_of_neg]
  simp

theorem takeWhile_of_absent (absent : byte ∉ front) (back : Bytes) :
    (front ++ byte :: back).takeWhile (· != byte) = front := by
  rw [List.takeWhile_append_of_pos (differs_of_absent absent), List.takeWhile_cons_of_neg,
    List.append_nil]
  simp

end

variable {key tag : Bytes}

theorem hashed_of_tag (tagged : IsTag key tag) : hashed key = tag := by
  obtain ⟨front, back, first, rfl⟩ := tagged.placed
  have shown : ¬ (tag.isEmpty = true ∨ tag.length = (tag ++ closeBrace :: back).length) := by
    rw [List.isEmpty_iff, List.length_append, List.length_cons]
    intro hidden
    rcases hidden with empty | whole
    · exact tagged.filled empty
    · omega
  simp only [hashed, dropWhile_of_absent first, takeWhile_of_absent tagged.closed, if_neg shown]

theorem hashed_of_untagged (untagged : ∀ tag, ¬ IsTag key tag) : hashed key = key := by
  by_cases opened : openBrace ∈ key
  · obtain ⟨front, rest, rfl, first⟩ := List.eq_append_cons_of_mem opened
    simp only [hashed, dropWhile_of_absent first]
    apply if_pos
    by_cases ends : closeBrace ∈ rest
    · obtain ⟨tag, back, rfl, closed⟩ := List.eq_append_cons_of_mem ends
      rw [takeWhile_of_absent closed]
      apply Or.inl
      apply List.isEmpty_iff.mpr
      by_contra filled
      exact untagged tag ⟨filled, closed, front, back, first, rfl⟩
    · apply Or.inr
      rw [List.takeWhile_eq_self_iff.mpr (differs_of_absent ends)]
  · have unopened : key.dropWhile (· != openBrace) = [] :=
      List.dropWhile_eq_nil_iff.mpr (differs_of_absent opened)
    simp only [hashed, unopened]

/-! ### Slots -/

/-- The slot that the rule gives to the bytes that count: their remainder as a number, modulo
16384. -/
def IsSlot (part : Bytes) (slot : Nat) : Prop :=
  ∃ remainder : BitVec 16, ofBits remainder = (ofBytes part * X ^ 16) %ₘ divisor ∧
    slot = remainder.toNat % 16384

theorem isSlot_ofKey (key : String) : IsSlot (hashed (Text.encode key)) (ofKey key) :=
  ⟨checksum (hashed (Text.encode key)), (remainder_eq _).symm, rfl⟩

def around (front tag back : String) : String := front ++ "\x7b" ++ tag ++ "\x7d" ++ back

theorem isTag_around {front tag : String} (first : '{' ∉ front.toList) (filled : tag ≠ "")
    (closed : '}' ∉ tag.toList) (back : String) :
    IsTag (Text.encode (around front tag back)) (Text.encode tag) where
  filled empty := filled (Text.encode_injective (empty.trans rfl))
  closed member := closed (Text.mem_of_mem_encode member (by decide))
  placed := by
    refine ⟨Text.encode front, Text.encode back, ?_, ?_⟩
    · intro member
      exact first (Text.mem_of_mem_encode member (by decide))
    · have opening : Text.encode "\x7b" = [openBrace] := by decide +kernel
      have closing : Text.encode "\x7d" = [closeBrace] := by decide +kernel
      simp only [around, Text.encode_append, opening, closing, List.append_assoc,
        List.cons_append, List.nil_append]

/-- The checksum of a byte string is the remainder of its bits in front of sixteen zeros. The slot of
a key is that of its tag, or of the whole key if it has none, so keys around the same tag share a
slot. -/
theorem follows_cluster_rule :
    (∀ (data : Bytes) (remainder : BitVec 16),
      ofBits remainder = (ofBytes data * X ^ 16) %ₘ divisor ↔ remainder = checksum data) ∧
    (∀ (key : String) (tag : Bytes), IsTag (Text.encode key) tag → IsSlot tag (ofKey key)) ∧
    (∀ key : String, (∀ tag, ¬ IsTag (Text.encode key) tag) →
      IsSlot (Text.encode key) (ofKey key)) ∧
    ∀ tag front other back behind : String, tag ≠ "" → '}' ∉ tag.toList →
      '{' ∉ front.toList → '{' ∉ other.toList →
      ofKey (around front tag back) = ofKey (around other tag behind) := by
  refine ⟨?_, ?_, ?_, ?_⟩
  · intro data remainder
    rw [remainder_eq]
    exact ofBits_injective.eq_iff
  · intro key tag tagged
    have slot := isSlot_ofKey key
    rwa [hashed_of_tag tagged] at slot
  · intro key untagged
    have slot := isSlot_ofKey key
    rwa [hashed_of_untagged untagged] at slot
  · intro tag front other back behind filled closed first second
    unfold ofKey
    rw [hashed_of_tag (isTag_around first filled closed back),
      hashed_of_tag (isTag_around second filled closed behind)]

/-- An empty tag is none. -/
theorem untagged_of_empty_braces (tag : Bytes) : ¬ IsTag (Text.encode "foo{}bar") tag := by
  intro tagged
  have whole : hashed (Text.encode "foo{}bar") = Text.encode "foo{}bar" := by decide +kernel
  have brace : closeBrace ∈ Text.encode "foo{}bar" := by decide +kernel
  rw [← whole, hashed_of_tag tagged] at brace
  exact tagged.closed brace

/-- A check value that is often published, keys with a tag and one without. -/
theorem follows_cluster_rule_of_samples :
    ofBits 0x31C3#16 = (ofBytes (Text.encode "123456789") * X ^ 16) %ₘ divisor ∧
    IsSlot (Text.encode "user1000") 3443 ∧
    IsSlot (Text.encode "foo{}bar") (ofKey "foo{}bar") ∧
    ofKey "{user1000}.following" = ofKey "{user1000}.followers" := by
  obtain ⟨remainders, tags, wholes, shared⟩ := follows_cluster_rule
  have following : around "" "user1000" ".following" = "{user1000}.following" := by decide +kernel
  have followers : around "" "user1000" ".followers" = "{user1000}.followers" := by decide +kernel
  have slot : ofKey "{user1000}.following" = 3443 := by decide +kernel
  refine ⟨?_, ?_, ?_, ?_⟩
  · apply (remainders _ _).mpr
    decide +kernel
  · rw [← slot]
    apply tags
    rw [← following]
    exact isTag_around (by decide) (by decide) (by decide) ".following"
  · exact wholes "foo{}bar" untagged_of_empty_braces
  · rw [← following, ← followers]
    exact shared "user1000" "" "" ".following" ".followers" (by decide) (by decide) (by decide)
      (by decide)

end Slot

end InferenceStore
