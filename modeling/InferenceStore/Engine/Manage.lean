import InferenceStore.Engine.State
import InferenceStore.Command.Model
import InferenceStore.Command.Script
import InferenceStore.Command.Tensor

/-
Commands that manage values and settings. None of them waits: each is one step from a state and
arguments to a state and a reply.
-/

namespace InferenceStore.Engine

open Command

def setTensor (engine : Engine) (arguments : List Bytes) : Engine × Outcome Reply :=
  match TensorSet.ofArguments arguments with
  | .error cause => (engine, .error cause)
  | .ok set => engine.write (engine.keyspace.putTensor set.key set.tensor)

def getTensor (engine : Engine) (arguments : List Bytes) : Outcome Reply := do
  let get ← TensorGet.ofArguments arguments
  let tensor ← engine.keyspace.getTensor get.key
  pure (get.format.reply tensor)

def isFreeForModel (keyspace : Keyspace) (key : String) : Bool :=
  match keyspace.get? key with
  | none | some (.model _) => true
  | some _ => false

def isFreeForScript (keyspace : Keyspace) (key : String) : Bool :=
  match keyspace.get? key with
  | none | some (.script _) => true
  | some _ => false

/-- Stores a model. The key is checked before the blob is loaded. -/
def storeModel (engine : Engine) (command : String) (arguments : List Bytes) :
    Engine × Outcome Reply :=
  match ModelStore.ofArguments command arguments with
  | .error cause => (engine, .error cause)
  | .ok store =>
      if !isFreeForModel engine.keyspace store.key then (engine, .error .wrongType)
      else
        match engine.loadModel store.key store.definition store.blob with
        | (loaded, .error cause) => (loaded, .error cause)
        | (loaded, .ok model) => loaded.installModel store.key model

def storeScript (engine : Engine) (parsed : Outcome ScriptStore) : Engine × Outcome Reply :=
  match parsed with
  | .error cause => (engine, .error cause)
  | .ok store =>
      if !isFreeForScript engine.keyspace store.key then (engine, .error .wrongType)
      else
        match engine.loadScript store.key store.definition with
        | (loaded, .error cause) => (loaded, .error cause)
        | (loaded, .ok script) => loaded.installScript store.key script

def chunks (size : Nat) (blob : Bytes) : List Bytes :=
  if _small : blob.length ≤ size ∨ size = 0 then [blob]
  else blob.take size :: chunks size (blob.drop size)
termination_by blob.length
decreasing_by
  simp only [List.length_drop]
  omega

/-- A blob as it is, or as a list of pieces if it is longer than one piece may be. -/
def blobReply (size : Nat) (blob : Bytes) : Reply :=
  if blob.length ≤ size then .bulk blob else .array ((chunks size blob).map .bulk)

def modelFields (definition : ModelDefinition) : List Reply :=
  [ .status "backend", .status definition.backend.name
  , .status "device", .status definition.device.text
  , .status "tag", .text definition.tag
  , .status "batchsize", .integer (signedWord definition.policy.batchSize)
  , .status "minbatchsize", .integer (signedWord definition.policy.minBatchSize)
  , .status "minbatchtimeout", .integer (signedWord definition.policy.minBatchTimeout)
  , .status "inputs", .array (definition.inputs.map .text)
  , .status "outputs", .array (definition.outputs.map .text) ]

/-- `AI.MODELGET key [META] [BLOB]`. The bare blob is the reply if it alone is asked for; other
arguments are ignored. -/
def getModel (engine : Engine) (arguments : List Bytes) : Outcome Reply :=
  match arguments with
  | _ :: key :: parts =>
      if 2 < parts.length then .error (.wrongArity "AI.MODELGET")
      else do
        let key ← text key
        let model ← engine.keyspace.getModel key
        let wantsFields := parts.any (Text.isKeyword · "META")
        let wantsBlob := parts.any (Text.isKeyword · "BLOB")
        let blob := blobReply engine.config.modelChunkSize model.blob
        if !wantsFields && wantsBlob then pure blob
        else if !wantsFields || wantsBlob then
          pure (.array (modelFields model.definition ++ [.status "blob", blob]))
        else pure (.array (modelFields model.definition))
  | _ => .error (.wrongArity "AI.MODELGET")

def scriptFields (script : Script) : List Reply :=
  [ .status "device", .status script.device.text
  , .status "tag", .text script.tag
  , .status "entry_points", .array (script.entryPoints.map .text) ]

/-- `AI.SCRIPTGET key [META] [SOURCE]`. The bare source is the reply if it alone is asked for;
other arguments are ignored. -/
def getScript (engine : Engine) (arguments : List Bytes) : Outcome Reply :=
  match arguments with
  | _ :: key :: parts =>
      if 2 < parts.length then .error (.wrongArity "AI.SCRIPTGET")
      else do
        let key ← text key
        let script ← engine.keyspace.getScript key
        let wantsFields := parts.any (Text.isKeyword · "META")
        let wantsSource := parts.any (Text.isKeyword · "SOURCE")
        let source : Reply := .text script.source
        if !wantsFields && wantsSource then pure source
        else if !wantsFields || wantsSource then
          pure (.array (scriptFields script ++ [.status "source", source]))
        else pure (.array (scriptFields script))
  | _ => .error (.wrongArity "AI.SCRIPTGET")

/-- Deletes the model at a key. Runs that hold it are not disturbed. -/
def deleteModel (engine : Engine) (arguments : List Bytes) : Engine × Outcome Reply :=
  match arguments with
  | [_, key] =>
      match text key >>= fun key => (engine.keyspace.getModel key).map fun _ => key with
      | .error cause => (engine, .error cause)
      | .ok key => ({ engine with keyspace := engine.keyspace.remove key }, .ok .okay)
  | _ => (engine, .error (.wrongArity "AI.MODELDEL"))

def deleteScript (engine : Engine) (arguments : List Bytes) : Engine × Outcome Reply :=
  match arguments with
  | [_, key] =>
      match text key >>= fun key => (engine.keyspace.getScript key).map fun _ => key with
      | .error cause => (engine, .error cause)
      | .ok key => ({ engine with keyspace := engine.keyspace.remove key }, .ok .okay)
  | _ => (engine, .error (.wrongArity "AI.SCRIPTDEL"))

def scanModels (engine : Engine) : Reply :=
  .array (engine.keyspace.sorted.filterMap fun entry =>
    match entry.2 with
    | .model model => some (.array [.text entry.1, .text model.definition.tag])
    | _ => none)

def scanScripts (engine : Engine) : Reply :=
  .array (engine.keyspace.sorted.filterMap fun entry =>
    match entry.2 with
    | .script script => some (.array [.text entry.1, .text script.tag])
    | _ => none)

def instanceAt (keyspace : Keyspace) (key : String) : Outcome (InstanceId × RunInfo) :=
  match keyspace.get? key with
  | some (.model model) => .ok (model.id, model.info)
  | some (.script script) => .ok (script.id, script.info)
  | _ => .error (.malformed .noRunInfo)

def setLedger (engine : Engine) (ledger : Ledger) : Engine :=
  { engine with dispatcher := { engine.dispatcher with ledger := ledger } }

/-- `AI.INFO key [RESETSTAT]` -/
def info (engine : Engine) (arguments : List Bytes) : Engine × Outcome Reply :=
  match arguments with
  | [_, key] =>
      match text key >>= instanceAt engine.keyspace with
      | .error cause => (engine, .error cause)
      | .ok (id, about) =>
          (engine, .ok (about.report (engine.dispatcher.ledger.counters id)))
  | [_, key, subcommand] =>
      match text key with
      | .error cause => (engine, .error cause)
      | .ok key =>
          if !Text.isKeyword subcommand "RESETSTAT" then
            (engine, .error (.malformed (.unknownInfo (Text.decodeLossy subcommand))))
          else
            match instanceAt engine.keyspace key with
            | .error cause => (engine, .error cause)
            | .ok (id, _) => (engine.setLedger (engine.dispatcher.ledger.reset id), .ok .okay)
  | _ => (engine, .error (.wrongArity "AI.INFO"))

def configure (engine : Engine) (arguments : List Bytes) : Engine × Outcome Reply :=
  match ConfigCommand.ofArguments arguments with
  | .error cause => (engine, .error cause)
  | .ok command =>
      let (config, reply) := command.apply engine.config
      ({ engine with config := config }, .ok reply)

def dump (engine : Engine) (key : String) : Outcome Bytes :=
  match engine.keyspace.get? key with
  | some (.model model) => .ok (Encoding.writeModel model.definition model.blob)
  | some (.script script) =>
      .ok (Encoding.writeScript script.device script.tag script.entryPoints script.source)
  | some (.tensor tensor) => .ok (Encoding.writeTensor tensor)
  | some (.foreign _) => .error .wrongType
  | none => .error (.emptyKey .anything)

/-- Loads a stored model, ready to run. The key is checked last. -/
def restoreModel (engine : Engine) (key : String) (data : Bytes) : Engine × Outcome Reply :=
  match Encoding.readModel data with
  | .error cause => (engine, .error cause)
  | .ok (definition, blob) =>
      match engine.loadModel key definition blob with
      | (loaded, .error cause) => (loaded, .error cause)
      | (loaded, .ok model) => loaded.installModel key model

def restoreScript (engine : Engine) (key : String) (data : Bytes) : Engine × Outcome Reply :=
  match Encoding.readScript data with
  | .error cause => (engine, .error cause)
  | .ok definition =>
      match engine.loadScript key definition with
      | (loaded, .error cause) => (loaded, .error cause)
      | (loaded, .ok script) => loaded.installScript key script

def restoreTensor (engine : Engine) (key : String) (data : Bytes) : Engine × Outcome Reply :=
  match Encoding.readTensor data with
  | .error cause => (engine, .error cause)
  | .ok tensor => engine.write (engine.keyspace.putTensor key tensor)

end InferenceStore.Engine
