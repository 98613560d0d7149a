import InferenceStore.Proofs.Encoding.Recovery
import InferenceStore.Proofs.Service.Graphs

/-
Putting values at keys. Commands and restores read a tensor, or have a backend load a model or a
script, and put it at its key by one rule: a key that holds something takes values of the same type
only. So what all of them do is shown of a load and of a put behind it.
-/

namespace InferenceStore

/-- A value is put behind a queue for its device. -/
def Value.device? : Value → Option Device
  | .model m => some m.definition.device
  | .script s => some s.device
  | _ => none

namespace Keyspace

open Engine

variable {keyspace : Keyspace} {key : String}

/-- A key that holds something takes values of the same kind only. -/
def Takes (keyspace : Keyspace) (key : String) (value : Value) : Prop :=
  ∀ held, keyspace.get? key = some held → held.typeName = value.typeName

theorem takes_iff {value : Value} : keyspace.Takes key value ↔
    (keyspace.get? key).all (·.typeName == value.typeName) = true := by
  simp [Takes, Option.all_eq_true]

instance (value : Value) : Decidable (keyspace.Takes key value) :=
  decidable_of_iff _ takes_iff.symm

def put (keyspace : Keyspace) (key : String) (value : Value) : Outcome Keyspace :=
  if keyspace.Takes key value then .ok (keyspace.set key value) else .error .wrongType

theorem putTensor_eq_put (keyspace : Keyspace) (key : String) (tensor : Tensor) :
    keyspace.putTensor key tensor = keyspace.put key (.tensor tensor) := by
  simp only [putTensor, put, takes_iff]
  cases keyspace.get? key with
  | none => rfl
  | some held => cases held <;> rfl

theorem putModel_eq_put (keyspace : Keyspace) (key : String) (model : Model) :
    keyspace.putModel key model = keyspace.put key (.model model) := by
  simp only [putModel, put, takes_iff]
  cases keyspace.get? key with
  | none => rfl
  | some held => cases held <;> rfl

theorem putScript_eq_put (keyspace : Keyspace) (key : String) (script : Script) :
    keyspace.putScript key script = keyspace.put key (.script script) := by
  simp only [putScript, put, takes_iff]
  cases keyspace.get? key with
  | none => rfl
  | some held => cases held <;> rfl

theorem isFreeForModel_iff (model : Model) :
    isFreeForModel keyspace key = true ↔ keyspace.Takes key (.model model) := by
  rw [isFreeForModel, takes_iff]
  cases keyspace.get? key with
  | none => rfl
  | some held => cases held <;> rfl

theorem isFreeForScript_iff (script : Script) :
    isFreeForScript keyspace key = true ↔ keyspace.Takes key (.script script) := by
  rw [isFreeForScript, takes_iff]
  cases keyspace.get? key with
  | none => rfl
  | some held => cases held <;> rfl

end Keyspace

namespace Engine

variable {engine : Engine} {key : String}

/-! ### Loads -/

structure Keeps (engine later : Engine) : Prop where
  keyspace : later.keyspace = engine.keyspace
  config : later.config = engine.config
  threads : later.threadsPerQueue = engine.threadsPerQueue
  dispatcher : later.dispatcher = engine.dispatcher

theorem Keeps.refl (engine : Engine) : engine.Keeps engine := ⟨rfl, rfl, rfl, rfl⟩

theorem keeps_noteLoad (engine : Engine) (kind : BackendKind) (request : LoadRequest) :
    engine.Keeps (engine.noteLoad kind request) := by
  unfold noteLoad
  split <;> exact ⟨rfl, rfl, rfl, rfl⟩

theorem Keeps.number {later : Engine} (kept : engine.Keeps later) (number : InstanceId) :
    engine.Keeps { later with nextInstance := number } :=
  ⟨kept.keyspace, kept.config, kept.threads, kept.dispatcher⟩

theorem keeps_loadModel (engine : Engine) (key : String) (definition : ModelDefinition)
    (blob : Bytes) : engine.Keeps (engine.loadModel key definition blob).1 :=
  (keeps_noteLoad ..).number _

theorem keeps_loadScript (engine : Engine) (key : String) (definition : ScriptDefinition) :
    engine.Keeps (engine.loadScript key definition).1 :=
  (keeps_noteLoad ..).number _

def valued {α : Type} (kind : α → Value) (loaded : Engine × Outcome α) : Engine × Outcome Value :=
  (loaded.1, loaded.2.map kind)

/-- A value for a key comes from its bytes or from a backend, or there is none. -/
inductive Load (engine : Engine) (key : String) : Engine × Outcome Value → Prop
  | fails (cause : Error) : Load engine key (engine, .error cause)
  | tensor (tensor : Tensor) : Load engine key (engine, .ok (.tensor tensor))
  | model (definition : ModelDefinition) (blob : Bytes) :
      Load engine key (valued .model (engine.loadModel key definition blob))
  | script (definition : ScriptDefinition) :
      Load engine key (valued .script (engine.loadScript key definition))

theorem Load.keeps {loaded : Engine × Outcome Value} (load : engine.Load key loaded) :
    engine.Keeps loaded.1 := by
  cases load with
  | fails | tensor => exact .refl engine
  | model definition blob => exact keeps_loadModel engine key definition blob
  | script definition => exact keeps_loadScript engine key definition

theorem Load.registry {loaded : Engine × Outcome Value} (load : engine.Load key loaded) :
    loaded.1.registry = engine.registry := by
  cases load with
  | fails | tensor => rfl
  | model | script =>
      simp only [valued, loadModel, loadScript, noteLoad]
      split <;> rfl

/-! ### Puts -/

def readyFor (engine : Engine) (value : Value) : Engine :=
  value.device?.elim engine fun device => (engine.ensureQueue device).1

theorem keyspace_readyFor (engine : Engine) (value : Value) :
    (engine.readyFor value).keyspace = engine.keyspace := by
  unfold readyFor
  cases value.device? with
  | none => rfl
  | some device => exact keyspace_ensureQueue engine device

theorem registry_readyFor (engine : Engine) (value : Value) :
    (engine.readyFor value).registry = engine.registry := by
  unfold readyFor
  cases value.device? with
  | none => rfl
  | some device =>
      simp only [Option.elim_some, ensureQueue]
      split <;> rfl

def install (engine : Engine) (key : String) (value : Value) : Engine × Outcome Reply :=
  (engine.readyFor value).write (engine.keyspace.put key value)

theorem installModel_eq (engine : Engine) (key : String) (model : Model) :
    engine.installModel key model = engine.install key (.model model) := by
  simp only [installModel, Keyspace.putModel_eq_put, keyspace_ensureQueue]
  rfl

theorem installScript_eq (engine : Engine) (key : String) (script : Script) :
    engine.installScript key script = engine.install key (.script script) := by
  simp only [installScript, Keyspace.putScript_eq_put, keyspace_ensureQueue]
  rfl

theorem install_of_takes {value : Value} (takes : engine.keyspace.Takes key value) :
    engine.install key value =
      ({ engine.readyFor value with keyspace := engine.keyspace.set key value }, .ok .okay) := by
  rw [install, Keyspace.put, if_pos takes, write]

theorem install_of_refused {value : Value} (refused : ¬ engine.keyspace.Takes key value) :
    engine.install key value = (engine.readyFor value, .error .wrongType) := by
  rw [install, Keyspace.put, if_neg refused, write]

def finish (key : String) : Engine × Outcome Value → Engine × Outcome Reply
  | (loaded, .error cause) => (loaded, .error cause)
  | (loaded, .ok value) => loaded.install key value

theorem finish_loadModel (engine : Engine) (key : String) (definition : ModelDefinition)
    (blob : Bytes) :
    (match engine.loadModel key definition blob with
      | (loaded, .error cause) => (loaded, (.error cause : Outcome Reply))
      | (loaded, .ok model) => loaded.installModel key model) =
      finish key (valued .model (engine.loadModel key definition blob)) := by
  rcases engine.loadModel key definition blob with ⟨loaded, cause | model⟩
  · rfl
  · exact installModel_eq loaded key model

theorem finish_loadScript (engine : Engine) (key : String) (definition : ScriptDefinition) :
    (match engine.loadScript key definition with
      | (loaded, .error cause) => (loaded, (.error cause : Outcome Reply))
      | (loaded, .ok script) => loaded.installScript key script) =
      finish key (valued .script (engine.loadScript key definition)) := by
  rcases engine.loadScript key definition with ⟨loaded, cause | script⟩
  · rfl
  · exact installScript_eq loaded key script

/-- The step loads a value and puts it at a key. -/
def Puts (engine : Engine) (step : Engine × Outcome Reply) : Prop :=
  ∃ key loaded, engine.Load key loaded ∧ step = finish key loaded

def PutsFree (engine : Engine) (step : Engine × Outcome Reply) : Prop :=
  ∃ key loaded, engine.Load key loaded ∧
    (∀ value, loaded.2 = .ok value → engine.keyspace.Takes key value) ∧ step = finish key loaded

theorem PutsFree.puts {step : Engine × Outcome Reply} (puts : engine.PutsFree step) :
    engine.Puts step := by
  obtain ⟨key, loaded, load, _, same⟩ := puts
  exact ⟨key, loaded, load, same⟩

theorem putsFree_of_error (engine : Engine) (cause : Error) :
    engine.PutsFree (engine, .error cause) :=
  ⟨"", _, .fails cause, nofun, rfl⟩

theorem puts_setTensor (engine : Engine) (arguments : List Bytes) :
    engine.Puts (engine.setTensor arguments) := by
  unfold setTensor
  split
  · exact (putsFree_of_error ..).puts
  · exact ⟨_, _, .tensor _, congrArg engine.write (Keyspace.putTensor_eq_put ..)⟩

theorem putsFree_storeModel (engine : Engine) (command : String) (arguments : List Bytes) :
    engine.PutsFree (engine.storeModel command arguments) := by
  unfold storeModel
  split
  · exact putsFree_of_error ..
  · split
    · exact putsFree_of_error ..
    · rename_i free
      refine ⟨_, _, .model _ _, fun value gives => ?_, finish_loadModel ..⟩
      obtain ⟨model, _, rfl⟩ := Outcome.map_eq_ok.mp gives
      exact (Keyspace.isFreeForModel_iff model).mp (by simpa using free)

theorem putsFree_storeScript (engine : Engine) (parsed : Outcome Command.ScriptStore) :
    engine.PutsFree (engine.storeScript parsed) := by
  unfold storeScript
  split
  · exact putsFree_of_error ..
  · split
    · exact putsFree_of_error ..
    · rename_i free
      refine ⟨_, _, .script _, fun value gives => ?_, finish_loadScript ..⟩
      obtain ⟨script, _, rfl⟩ := Outcome.map_eq_ok.mp gives
      exact (Keyspace.isFreeForScript_iff script).mp (by simpa using free)

/-! ### Restores -/

def decodeModel (engine : Engine) (key : String) (data : Bytes) : Engine × Outcome Value :=
  match Encoding.readModel data with
  | .error cause => (engine, .error cause)
  | .ok (definition, blob) => valued .model (engine.loadModel key definition blob)

def decodeScript (engine : Engine) (key : String) (data : Bytes) : Engine × Outcome Value :=
  match Encoding.readScript data with
  | .error cause => (engine, .error cause)
  | .ok definition => valued .script (engine.loadScript key definition)

def decodeTensor (engine : Engine) (data : Bytes) : Engine × Outcome Value :=
  (engine, (Encoding.readTensor data).map .tensor)

theorem restoreModel_eq (engine : Engine) (key : String) (data : Bytes) :
    engine.restoreModel key data = finish key (engine.decodeModel key data) := by
  unfold restoreModel decodeModel
  rcases Encoding.readModel data with cause | ⟨definition, blob⟩
  · rfl
  · exact finish_loadModel ..

theorem restoreScript_eq (engine : Engine) (key : String) (data : Bytes) :
    engine.restoreScript key data = finish key (engine.decodeScript key data) := by
  unfold restoreScript decodeScript
  rcases Encoding.readScript data with cause | definition
  · rfl
  · exact finish_loadScript ..

theorem restoreTensor_eq (engine : Engine) (key : String) (data : Bytes) :
    engine.restoreTensor key data = finish key (engine.decodeTensor data) := by
  unfold restoreTensor decodeTensor
  rcases Encoding.readTensor data with cause | tensor
  · rfl
  · exact congrArg engine.write (Keyspace.putTensor_eq_put _ key tensor)

theorem load_decodeModel (engine : Engine) (key : String) (data : Bytes) :
    engine.Load key (engine.decodeModel key data) := by
  unfold decodeModel
  split
  · exact .fails _
  · exact .model _ _

theorem load_decodeScript (engine : Engine) (key : String) (data : Bytes) :
    engine.Load key (engine.decodeScript key data) := by
  unfold decodeScript
  split
  · exact .fails _
  · exact .script _

theorem load_decodeTensor (engine : Engine) (key : String) (data : Bytes) :
    engine.Load key (engine.decodeTensor data) := by
  unfold decodeTensor
  rcases Encoding.readTensor data with cause | tensor
  · exact .fails cause
  · exact .tensor tensor

theorem puts_restoreModel (engine : Engine) (key : String) (data : Bytes) :
    engine.Puts (engine.restoreModel key data) :=
  ⟨key, _, load_decodeModel .., restoreModel_eq ..⟩

theorem puts_restoreScript (engine : Engine) (key : String) (data : Bytes) :
    engine.Puts (engine.restoreScript key data) :=
  ⟨key, _, load_decodeScript .., restoreScript_eq ..⟩

theorem puts_restoreTensor (engine : Engine) (key : String) (data : Bytes) :
    engine.Puts (engine.restoreTensor key data) :=
  ⟨key, _, load_decodeTensor .., restoreTensor_eq ..⟩

end Engine

end InferenceStore
