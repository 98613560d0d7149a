import InferenceStore.Device
import InferenceStore.Error
import InferenceStore.Number.Decimal
import InferenceStore.Text.Ascii

/-
Arguments of a command. They are bytes; names among them have to be text, numbers decimal,
and keywords compare in any ASCII case. The position of a reader is the list still to be read.
-/

namespace InferenceStore.Command

def text (argument : Bytes) : Outcome String :=
  match Text.decode? argument with
  | some content => .ok content
  | none => .error (.malformed .notText)

def texts : List Bytes → Outcome (List String)
  | [] => .ok []
  | argument :: rest => do
      let head ← text argument
      let tail ← texts rest
      pure (head :: tail)

def take? (count : Nat) (arguments : List Bytes) : Option (List Bytes × List Bytes) :=
  if arguments.length < count then none
  else some (arguments.take count, arguments.drop count)

/-- Separates the operations of a graph. -/
def chain : Bytes := Text.encode "|>"

def isChain (argument : Bytes) : Bool := argument == chain

def name (arguments : List Bytes) : String :=
  match arguments with
  | [] => ""
  | first :: _ => Text.upper (Text.decodeLossy first)

def timeout (argument : Bytes) : Outcome Nat :=
  match Decimal.positive? argument with
  | some milliseconds => .ok milliseconds
  | none => .error (.malformed .invalidTimeout)

def device (argument : Bytes) : Outcome Device := do
  let name ← text argument
  match Device.ofText? name with
  | some device => pure device
  | none => .error (.malformed .invalidDevice)

def optionalTag : List Bytes → Outcome (String × List Bytes)
  | [] => .ok ("", [])
  | keyword :: rest =>
      if Text.isKeyword keyword "TAG" then
        match rest with
        | [] => .error (.malformed .missingTag)
        | tag :: behind => do
            let tag ← text tag
            pure (tag, behind)
      else .ok ("", keyword :: rest)

theorem length_of_take? {count : Nat} {arguments taken rest : List Bytes}
    (found : take? count arguments = some (taken, rest)) :
    taken.length = count ∧ rest.length + count = arguments.length := by
  unfold take? at found
  split at found
  · cases found
  · cases found
    simp only [List.length_take, List.length_drop]
    omega

end InferenceStore.Command
