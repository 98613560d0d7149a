import InferenceStore.Bytes

/-
Text and its UTF-8 bytes. `decode?` is exact: it inverts `encode` and refuses all else.
`decodeLossy` is for quoting an argument in a message: every longest piece that starts
a character but cannot be completed becomes one replacement character.
-/

namespace InferenceStore.Text

def encode (text : String) : Bytes := text.toUTF8.data.toList

def decode? (bytes : Bytes) : Option String := String.fromUTF8? ⟨bytes.toArray⟩

theorem decode?_eq_some_iff {bytes : Bytes} {text : String} :
    decode? bytes = some text ↔ encode text = bytes := by
  unfold decode? encode String.fromUTF8?
  constructor
  · intro found
    split at found
    · cases found
      rfl
    · cases found
  · intro same
    subst same
    have whole : (⟨text.toUTF8.data.toList.toArray⟩ : ByteArray) = text.toByteArray := by
      simp [String.toUTF8]
    rw [whole, dif_pos text.isValidUTF8]
    rfl

theorem decode?_encode (text : String) : decode? (encode text) = some text :=
  decode?_eq_some_iff.mpr rfl

/-- Stands for bytes that form no character. -/
def replacement : Char := Char.ofNat 0xFFFD

/-- Where the bytes after a first byte have to lie. No character starts with a byte that has `none`. -/
def tailRanges? (first : Nat) : Option (List (Nat × Nat)) :=
  let tail := (0x80, 0xBF)
  if first < 0x80 then some []
  else if first < 0xC2 then none
  else if first < 0xE0 then some [tail]
  else if first = 0xE0 then some [(0xA0, 0xBF), tail]
  else if first = 0xED then some [(0x80, 0x9F), tail]
  else if first < 0xF0 then some [tail, tail]
  else if first = 0xF0 then some [(0x90, 0xBF), tail, tail]
  else if first < 0xF4 then some [tail, tail, tail]
  else if first = 0xF4 then some [(0x80, 0x8F), tail, tail]
  else none

def matching : List (Nat × Nat) → Bytes → List Nat
  | (low, high) :: ranges, byte :: rest =>
      if low ≤ byte.toNat ∧ byte.toNat ≤ high then byte.toNat :: matching ranges rest else []
  | _, _ => []

/-- The character of a first byte and its complete tail, six bits for each byte of the tail. -/
def character (first : Nat) (tail : List Nat) : Char :=
  let high :=
    match tail.length with
    | 0 => first
    | 1 => first - 0xC0
    | 2 => first - 0xE0
    | _ => first - 0xF0
  Char.ofNat (tail.foldl (fun code byte => 64 * code + (byte - 0x80)) high)

def lossyCharacters : Bytes → List Char
  | [] => []
  | byte :: rest =>
      match tailRanges? byte.toNat with
      | none => replacement :: lossyCharacters rest
      | some ranges =>
          let tail := matching ranges rest
          let decoded :=
            if tail.length = ranges.length then character byte.toNat tail else replacement
          decoded :: lossyCharacters (rest.drop tail.length)
termination_by bytes => bytes.length
decreasing_by all_goals simp only [List.length_cons, List.length_drop]; omega

def decodeLossy (bytes : Bytes) : String := String.ofList (lossyCharacters bytes)

end InferenceStore.Text
