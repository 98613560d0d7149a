import InferenceStore.Error
import InferenceStore.Number.Binary64
import InferenceStore.Text.Utf8

/-
Replies to clients, in the shape of the host's protocol.
-/

namespace InferenceStore

inductive Reply where
  | status (text : String)
  | bulk (data : Bytes)
  | integer (value : Int)
  | double (value : Number.Binary64)
  | array (items : List Reply)
  | error (cause : Error)
  | null

namespace Reply

def okay : Reply := .status "OK"

/-- Stands for the result of an operation that could not run. -/
def notAvailable : Reply := .status "NA"

def timedOut : Reply := .status "TIMEDOUT"

def text (content : String) : Reply := .bulk (Text.encode content)

def isError : Reply → Bool
  | .error _ => true
  | _ => false

def isNamed (field : String) : Reply → Bool
  | .status name => name == field
  | .bulk name => name == Text.encode field
  | _ => false

def valueOf? (field : String) : List Reply → Option Reply
  | name :: value :: rest => if name.isNamed field then some value else valueOf? field rest
  | _ => none

def field? (field : String) : Reply → Option Reply
  | .array items => valueOf? field items
  | _ => none

def ofOutcome : Outcome Reply → Reply
  | .ok reply => reply
  | .error cause => .error cause

end Reply

end InferenceStore
