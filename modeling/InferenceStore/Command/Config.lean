import InferenceStore.Command.Arguments
import InferenceStore.Config
import InferenceStore.Reply

/-
Settings at run time: `AI.CONFIG BACKENDSPATH path | MODEL_CHUNK_SIZE n | GET name`.
Arguments behind those are ignored.
-/

namespace InferenceStore.Command

inductive ConfigCommand where
  | backendsPath (path : String)
  | modelChunkSize (size : Nat)
  | get (name : String)
  deriving DecidableEq, Repr

namespace ConfigCommand

def ofArguments (arguments : List Bytes) : Outcome ConfigCommand :=
  match arguments with
  | _ :: subcommand :: rest =>
      if Text.isKeyword subcommand "BACKENDSPATH" then
        match rest.head? with
        | none => .error (.config .missingPath)
        | some path => (text path).map .backendsPath
      else if Text.isKeyword subcommand "MODEL_CHUNK_SIZE" then
        match rest.head? with
        | none => .error (.config .missingChunkSize)
        | some digits =>
            match Decimal.positive? digits with
            | some size => .ok (.modelChunkSize size)
            | none => .error (.config .invalidChunkSize)
      else if Text.isKeyword subcommand "GET" then
        match rest.head? with
        | none => .error (.wrongArity "AI.CONFIG")
        | some name => (text name).map .get
      else .error (.config .unknownSubcommand)
  | _ => .error (.wrongArity "AI.CONFIG")

def apply (command : ConfigCommand) (config : Config) : Config × Reply :=
  match command with
  | .backendsPath path => ({ config with backendsPath := some path }, .okay)
  | .modelChunkSize size => ({ config with modelChunkSize := size }, .okay)
  | .get name =>
      match config.get? name with
      | some value => (config, .text value)
      | none => (config, .null)

end ConfigCommand

end InferenceStore.Command
