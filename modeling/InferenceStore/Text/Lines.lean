import InferenceStore.Text.Utf8

/-
Lines and blanks of a source text. A line ends at a line feed, with or without a
carriage return before it, and a text that ends in a line feed has no empty last line.
-/

namespace InferenceStore.Text

/-- The Unicode characters with the property White_Space. -/
def isBlank (c : Char) : Bool :=
  let code := c.toNat
  (9 ≤ code && code ≤ 13) || code == 0x20 || code == 0x85 || code == 0xA0 || code == 0x1680 ||
    (0x2000 ≤ code && code ≤ 0x200A) || code == 0x2028 || code == 0x2029 || code == 0x202F ||
    code == 0x205F || code == 0x3000

def trimBlanks (characters : List Char) : List Char :=
  ((characters.dropWhile isBlank).reverse.dropWhile isBlank).reverse

/-- The pieces between separators, empty ones too. -/
def pieces (separator : Char) : List Char → List (List Char)
  | [] => [[]]
  | c :: rest =>
      if c = separator then [] :: pieces separator rest
      else
        match pieces separator rest with
        | [] => [[c]]
        | piece :: more => (c :: piece) :: more

def dropReturn (line : List Char) : List Char :=
  if line.getLast? = some '\r' then line.dropLast else line

def lines (characters : List Char) : List (List Char) :=
  let raw := pieces '\n' characters
  raw.dropLast.map dropReturn ++ (raw.getLast?.toList.filter fun line => !line.isEmpty)

def after? : List Char → List Char → Option (List Char)
  | [], rest => some rest
  | _ :: _, [] => none
  | expected :: opening, c :: rest => if c = expected then after? opening rest else none

def cutAt? (separator : Char) : List Char → Option (List Char × List Char)
  | [] => none
  | c :: rest =>
      if c = separator then some ([], rest)
      else (cutAt? separator rest).map fun (front, back) => (c :: front, back)

end InferenceStore.Text
