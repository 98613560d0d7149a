import InferenceStore.Command.Config
import InferenceStore.Encoding.Script
import InferenceStore.Encoding.Tensor
import InferenceStore.Keyspace.Basic
import InferenceStore.Keyspace.Slot
import InferenceStore.Queue.Dispatcher

/-
The state of a store: settings, backends, keyspace, run queues with their clock and statistics.
Models and scripts are values of the keyspace; an instance that a running graph or a waiting
request still holds lives on after its key is overwritten or deleted.
-/

namespace InferenceStore

structure Engine where
  config : Config
  clusterMode : Bool
  threadsPerQueue : Nat
  registry : BackendRegistry
  keyspace : Keyspace
  dispatcher : Dispatcher
  nextInstance : InstanceId
  /-- What backends were told so far, each under the number of its registration. -/
  loads : List (Nat × LoadRequest)

namespace Engine

def create (config : Config) (clusterMode : Bool) : Engine :=
  { config := config
    clusterMode := clusterMode
    threadsPerQueue := config.threadsPerQueue
    registry := .empty
    keyspace := .empty
    dispatcher := .initial
    nextInstance := 0
    loads := [] }

def register (engine : Engine) (backend : Backend) : Engine :=
  { engine with registry := engine.registry.register backend }

def queueOf? (engine : Engine) (device : Device) : Option Nat :=
  engine.dispatcher.queues.findIdx? fun queue => queue.device == device

/-- Opens a queue for the device unless there is one, and returns its place. -/
def ensureQueue (engine : Engine) (device : Device) : Engine × Nat :=
  match engine.queueOf? device with
  | some index => (engine, index)
  | none =>
      ({ engine with
          dispatcher := engine.dispatcher.openQueue device engine.threadsPerQueue },
        engine.dispatcher.queues.length)

def noteLoad (engine : Engine) (kind : BackendKind) (request : LoadRequest) : Engine :=
  match engine.registry.find? kind with
  | none => engine
  | some registration =>
      { engine with loads := engine.loads ++ [(registration.number, request)] }

def loadModel (engine : Engine) (key : String) (definition : ModelDefinition) (blob : Bytes) :
    Engine × Outcome Model :=
  let noted :=
    engine.noteLoad definition.backend (.model (definition.loadOptions engine.config))
  ({ noted with nextInstance := engine.nextInstance + 1 },
    Model.load engine.registry engine.config engine.nextInstance key definition blob)

def loadScript (engine : Engine) (key : String) (definition : ScriptDefinition) :
    Engine × Outcome Script :=
  let noted := engine.noteLoad scriptBackend (.script definition.device)
  ({ noted with nextInstance := engine.nextInstance + 1 },
    Script.load engine.registry engine.nextInstance key definition)

def write (engine : Engine) (written : Outcome Keyspace) : Engine × Outcome Reply :=
  match written with
  | .ok keyspace => ({ engine with keyspace := keyspace }, .ok .okay)
  | .error cause => (engine, .error cause)

/-- Puts a loaded model at a key and sees that its device has a queue. -/
def installModel (engine : Engine) (key : String) (model : Model) : Engine × Outcome Reply :=
  let (ready, _) := engine.ensureQueue model.definition.device
  ready.write (ready.keyspace.putModel key model)

def installScript (engine : Engine) (key : String) (script : Script) : Engine × Outcome Reply :=
  let (ready, _) := engine.ensureQueue script.device
  ready.write (ready.keyspace.putScript key script)

def submit (engine : Engine) (target : Target) (inputs : List Tensor) (outputCount : Nat)
    (deadline : Option Nat) : Engine × RequestId :=
  let (ready, index) := engine.ensureQueue target.device
  let request := ready.dispatcher.newRequest target inputs outputCount deadline
  ({ ready with dispatcher := ready.dispatcher.push index request }, request.id)

end Engine

end InferenceStore
