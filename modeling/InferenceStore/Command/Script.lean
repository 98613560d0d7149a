import InferenceStore.Command.Arguments
import InferenceStore.Keyspace.Basic

/-
Storing and running scripts:
  `AI.SCRIPTSTORE key device [TAG t] ENTRY_POINTS n name... SOURCE source`
  `AI.SCRIPTSET key device [TAG t] SOURCE source`
  `AI.SCRIPTEXECUTE key function [KEYS n k...] [INPUTS n i...] [LIST_INPUTS n l...]...
     [OUTPUTS n o...] [ARGS n a...] [TIMEOUT ms]`
  `AI.SCRIPTRUN key function [INPUTS i... [$ l...]] [OUTPUTS o...] [TIMEOUT ms]`
`AI.SCRIPTSET` and `AI.SCRIPTRUN` are deprecated.
-/

namespace InferenceStore.Command

structure ScriptStore where
  key : String
  definition : ScriptDefinition
  deriving DecidableEq, Repr

/-- A call of a script on local names. Names of lists stand behind the positional inputs. -/
structure ScriptRun where
  script : Script
  function : String
  keys : List String
  inputs : List String
  listSizes : List Nat
  outputs : List String
  arguments : List String
  timeout : Option Nat

def ScriptRun.invocation (run : ScriptRun) : ScriptInvocation :=
  { script := run.script
    function := run.function
    listSizes := run.listSizes
    keys := run.keys
    arguments := run.arguments }

def finalSource (arguments : List Bytes) : Outcome String :=
  let missing : Error := .malformed (.missingPart "script SOURCE")
  match arguments with
  | [keyword, source] =>
      if Text.isKeyword keyword "SOURCE" then text source else .error missing
  | _ => .error missing

/-- The names of the entry points. The source keyword is none of them. -/
def entryPoints (arguments : List Bytes) : Outcome (List String × List Bytes) :=
  let missing : Error := .malformed (.missingPart "script entry points")
  match arguments with
  | [] => .error missing
  | keyword :: rest =>
      if !Text.isKeyword keyword "ENTRY_POINTS" then .error missing
      else
        match rest.head?.bind Decimal.positive? with
        | none => .error (.malformed .entryPointCount)
        | some count =>
            match take? count (rest.drop 1) with
            | none => .error missing
            | some (names, behind) =>
                if names.any fun name => Text.isKeyword name "SOURCE" then .error missing
                else do
                  let names ← texts names
                  pure (names, behind)

def scriptHeader (key device : Bytes) (rest : List Bytes) :
    Outcome (String × Device × String × List Bytes) := do
  let key ← text key
  let device ← Command.device device
  let (tag, behind) ← optionalTag rest
  pure (key, device, tag, behind)

def ScriptStore.ofStore (arguments : List Bytes) : Outcome ScriptStore :=
  match arguments with
  | _ :: key :: device :: rest =>
      if rest.length < 5 then .error (.wrongArity "AI.SCRIPTSTORE")
      else do
        let (key, device, tag, afterTag) ← scriptHeader key device rest
        let (names, afterNames) ← entryPoints afterTag
        let source ← finalSource afterNames
        pure ⟨key, ⟨device, tag, some names, source⟩⟩
  | _ => .error (.wrongArity "AI.SCRIPTSTORE")

def ScriptStore.ofSet (arguments : List Bytes) : Outcome ScriptStore :=
  match arguments with
  | _ :: key :: device :: rest =>
      if rest.length < 2 then .error (.wrongArity "AI.SCRIPTSET")
      else do
        let (key, device, tag, afterTag) ← scriptHeader key device rest
        let source ← finalSource afterTag
        pure ⟨key, ⟨device, tag, none, source⟩⟩
  | _ => .error (.wrongArity "AI.SCRIPTSET")

/-- Keywords that cannot name a function. -/
def scopeKeywords : List String :=
  ["TIMEOUT", "INPUTS", "OUTPUTS", "KEYS", "LIST_INPUTS", "ARGS"]

def functionName (argument : Bytes) : Outcome String :=
  if scopeKeywords.any (Text.isKeyword argument) then .error (.malformed .functionMissing)
  else text argument

inductive Scope where
  | inputs
  | keys
  | outputs
  | arguments
  | listInputs
  deriving DecidableEq, Repr

namespace Scope

def all : List Scope := [.inputs, .keys, .outputs, .arguments, .listInputs]

def keyword : Scope → String
  | .inputs => "INPUTS"
  | .keys => "KEYS"
  | .outputs => "OUTPUTS"
  | .arguments => "ARGS"
  | .listInputs => "LIST_INPUTS"

def ofKeyword? (argument : Bytes) : Option Scope :=
  all.find? fun scope => Text.isKeyword argument scope.keyword

def countName : Scope → String
  | .inputs => "input"
  | .keys => "key"
  | .outputs => "output"
  | .arguments => "args"
  | .listInputs => "list input"

def namesName : Scope → String
  | .inputs => "input keys"
  | .keys => "keys"
  | .outputs => "output keys"
  | .arguments => "args"
  | .listInputs => "list input keys"

def names (scope : Scope) (arguments : List Bytes) : Outcome (List String × List Bytes) :=
  match arguments with
  | [] => .error (.malformed (.scopeCount scope.countName))
  | digits :: rest =>
      match Decimal.positive? digits with
      | none => .error (.malformed (.scopeCount scope.countName))
      | some count =>
          match take? count rest with
          | none => .error (.malformed (.scopeKeys scope.namesName))
          | some (taken, behind) =>
              match texts taken with
              | .error cause => .error cause
              | .ok read => .ok (read, behind)

theorem length_of_names {scope : Scope} {arguments rest : List Bytes} {read : List String}
    (found : scope.names arguments = .ok (read, rest)) : rest.length < arguments.length := by
  unfold names at found
  split at found
  · cases found
  · split at found
    · cases found
    · split at found
      · cases found
      · rename_i taken behind cut
        split at found
        · cases found
        · cases found
          have lengths := length_of_take? cut
          simp only [List.length_cons]
          omega

end Scope

/-- The scopes read so far. Only lists of inputs may come more than once. -/
structure ScriptScopes where
  inputs : Option (List String)
  keys : Option (List String)
  outputs : Option (List String)
  arguments : Option (List String)
  lists : List (List String)
  timeout : Option Nat
  deriving DecidableEq, Repr

namespace ScriptScopes

def empty : ScriptScopes := ⟨none, none, none, none, [], none⟩

def has (scopes : ScriptScopes) : Scope → Bool
  | .inputs => scopes.inputs.isSome
  | .keys => scopes.keys.isSome
  | .outputs => scopes.outputs.isSome
  | .arguments => scopes.arguments.isSome
  | .listInputs => false

def add (scopes : ScriptScopes) (names : List String) : Scope → ScriptScopes
  | .inputs => { scopes with inputs := some names }
  | .keys => { scopes with keys := some names }
  | .outputs => { scopes with outputs := some names }
  | .arguments => { scopes with arguments := some names }
  | .listInputs => { scopes with lists := scopes.lists ++ [names] }

def unrecognized (argument : Bytes) : Error :=
  .malformed (.scriptParameter (Text.decodeLossy argument))

def closing : List Bytes → Outcome Nat
  | [] => .error (.malformed .missingScriptTimeout)
  | value :: extra => do
      let milliseconds ← Command.timeout value
      match extra with
      | [] => pure milliseconds
      | argument :: _ => .error (unrecognized argument)

/-- Reads scopes up to the end. A repeated scope is refused before its names are read. -/
def read (scopes : ScriptScopes) (arguments : List Bytes) : Outcome ScriptScopes :=
  match arguments with
  | [] => .ok scopes
  | keyword :: rest =>
      if Text.isKeyword keyword "TIMEOUT" then do
        let milliseconds ← closing rest
        pure { scopes with timeout := some milliseconds }
      else
        match Scope.ofKeyword? keyword with
        | none => .error (unrecognized keyword)
        | some scope =>
            if scopes.has scope then .error (.malformed (.scopeRepeated scope.keyword))
            else
              match _found : scope.names rest with
              | .error cause => .error cause
              | .ok (names, behind) => read (scopes.add names scope) behind
termination_by arguments.length
decreasing_by
  have shorter := Scope.length_of_names _found
  simp only [List.length_cons]
  omega

def toRun (scopes : ScriptScopes) (script : Script) (function : String) : ScriptRun :=
  { script := script
    function := function
    keys := scopes.keys.getD []
    inputs := scopes.inputs.getD [] ++ scopes.lists.flatten
    listSizes := scopes.lists.map List.length
    outputs := scopes.outputs.getD []
    arguments := scopes.arguments.getD []
    timeout := scopes.timeout }

end ScriptScopes

def ScriptRun.ofExecute (keyspace : Keyspace) (arguments : List Bytes) : Outcome ScriptRun :=
  match arguments with
  | _ :: key :: function :: rest => do
      let key ← text key
      let script ← keyspace.getScript key
      let function ← functionName function
      let scopes ← ScriptScopes.empty.read rest
      pure (scopes.toRun script function)
  | _ => .error (.wrongArity "AI.SCRIPTEXECUTE")

inductive Section where
  | none
  | inputs
  | list
  | outputs
  deriving DecidableEq, Repr

structure ScriptSections where
  current : Section
  inputs : List String
  list : Option (List String)
  outputs : List String
  seenInputs : Bool
  timeout : Option Nat
  deriving DecidableEq, Repr

namespace ScriptSections

def empty : ScriptSections := ⟨.none, [], none, [], false, none⟩

def listMark : Bytes := Text.encode "$"

def openInputs (sections : ScriptSections) : Outcome ScriptSections :=
  if sections.seenInputs then .error (.malformed .sectionRepeated)
  else .ok { sections with current := .inputs, seenInputs := true }

def openList (sections : ScriptSections) : Outcome ScriptSections :=
  if sections.current ≠ .inputs ∧ sections.current ≠ .list then
    .error (.malformed .listOutsideInputs)
  else if sections.list.isSome then .error (.malformed .listRepeated)
  else .ok { sections with current := .list, list := some [] }

def addName (sections : ScriptSections) (name : String) : Outcome ScriptSections :=
  match sections.current with
  | .inputs => .ok { sections with inputs := sections.inputs ++ [name] }
  | .list => .ok { sections with list := some (sections.list.getD [] ++ [name]) }
  | .outputs => .ok { sections with outputs := sections.outputs ++ [name] }
  | .none => .error (.malformed (.sectionParameter name))

/-- Reads sections up to the end. A timeout may stand anywhere. -/
def read (sections : ScriptSections) : List Bytes → Outcome ScriptSections
  | [] => .ok sections
  | argument :: rest =>
      if Text.isKeyword argument "INPUTS" then
        match sections.openInputs with
        | .error cause => .error cause
        | .ok opened => read opened rest
      else if Text.isKeyword argument "OUTPUTS" then
        read { sections with current := .outputs } rest
      else if Text.isKeyword argument "TIMEOUT" then
        match rest with
        | [] => .error (.malformed .missingTimeout)
        | value :: behind =>
            match Command.timeout value with
            | .error cause => .error cause
            | .ok milliseconds => read { sections with timeout := some milliseconds } behind
      else if argument = listMark then
        match sections.openList with
        | .error cause => .error cause
        | .ok opened => read opened rest
      else
        match text argument with
        | .error cause => .error cause
        | .ok name =>
            match sections.addName name with
            | .error cause => .error cause
            | .ok extended => read extended rest

def toRun (sections : ScriptSections) (script : Script) (function : String) : ScriptRun :=
  { script := script
    function := function
    keys := []
    inputs := sections.inputs ++ sections.list.getD []
    listSizes := sections.list.toList.map List.length
    outputs := sections.outputs
    arguments := []
    timeout := sections.timeout }

end ScriptSections

def ScriptRun.ofRun (keyspace : Keyspace) (arguments : List Bytes) : Outcome ScriptRun :=
  match arguments with
  | _ :: key :: function :: rest =>
      if rest.isEmpty then .error (.wrongArity "AI.SCRIPTRUN")
      else do
        let key ← text key
        let script ← keyspace.getScript key
        let function ← functionName function
        let sections ← ScriptSections.empty.read rest
        pure (sections.toRun script function)
  | _ => .error (.wrongArity "AI.SCRIPTRUN")

end InferenceStore.Command
