import InferenceStore.Backend.Probe
import InferenceStore.Engine.Session
import InferenceStore.Proofs.Encoding.Recovery
import InferenceStore.Proofs.Service.Instances

/-
Management that fails. Commands that store, read or delete a value, report statistics or change
settings, and restores by the host, are each a chain of reading, checking, loading and writing.
When a link fails, values, settings, statistics and queues are as they were; only the number of
the next instance and what backends were told go on.

A restore checks the key last. If the key holds something else, the queue of the device has been
opened by then, and it stays.
-/

namespace InferenceStore

/-- A command, or a call of the host that puts back what was dumped. -/
inductive Management where
  | command (arguments : List Bytes)
  | restoreModel (key : String) (data : Bytes)
  | restoreScript (key : String) (data : Bytes)
  | restoreTensor (key : String) (data : Bytes)

namespace Management

def names : List String :=
  [ "AI.TENSORSET", "AI.TENSORGET", "AI.MODELSTORE", "AI.MODELSET", "AI.MODELGET", "AI.MODELDEL",
    "AI.SCRIPTSTORE", "AI.SCRIPTSET", "AI.SCRIPTGET", "AI.SCRIPTDEL", "AI.INFO", "AI.CONFIG" ]

def IsNamed : Management → Prop
  | .command arguments => Command.name arguments ∈ names
  | _ => True

end Management

namespace Engine

def manage (engine : Engine) : Management → Engine × Progress
  | .command arguments => engine.begin arguments
  | .restoreModel key data => immediate (engine.restoreModel key data)
  | .restoreScript key data => immediate (engine.restoreScript key data)
  | .restoreTensor key data => immediate (engine.restoreTensor key data)

/-- What a step does is undone, or has not been done, if it ends in an error. -/
def Reverts (engine : Engine) (step : Engine × Outcome Reply) : Prop :=
  ∀ cause, Reply.ofOutcome step.2 = .error cause → engine.Keeps step.1

/-- What is restored loads, but its key holds something else and its device has no queue. -/
inductive Strands (engine : Engine) : Management → Device → Prop
  | model {key : String} {data blob : Bytes} {definition : ModelDefinition} {model : Model}
      (read : Encoding.readModel data = .ok (definition, blob))
      (loaded : Model.load engine.registry engine.config engine.nextInstance key definition blob =
        .ok model)
      (taken : isFreeForModel engine.keyspace key = false)
      (unserved : engine.queueOf? definition.device = none) :
      Strands engine (.restoreModel key data) definition.device
  | script {key : String} {data : Bytes} {definition : ScriptDefinition} {script : Script}
      (read : Encoding.readScript data = .ok definition)
      (loaded : Script.load engine.registry engine.nextInstance key definition = .ok script)
      (taken : isFreeForScript engine.keyspace key = false)
      (unserved : engine.queueOf? definition.device = none) :
      Strands engine (.restoreScript key data) definition.device

variable {engine : Engine}

theorem Keeps.reverts {later : Engine} (kept : engine.Keeps later) (outcome : Outcome Reply) :
    engine.Reverts (later, outcome) :=
  fun _ _ => kept

theorem Reverts.of_okay {step : Engine × Outcome Reply} (done : step.2 = .ok .okay) :
    engine.Reverts step := by
  intro cause failed
  rw [done] at failed
  cases failed

theorem PutsFree.reverts {step : Engine × Outcome Reply} (puts : engine.PutsFree step) :
    engine.Reverts step := by
  obtain ⟨key, ⟨loaded, cause | value⟩, load, free, rfl⟩ := puts
  · exact load.keeps.reverts _
  · have takes : loaded.keyspace.Takes key value := by
      rw [load.keeps.keyspace]
      exact free value rfl
    exact .of_okay (congrArg Prod.snd (install_of_takes takes))

/-! ### Commands -/

theorem reverts_setTensor (engine : Engine) (arguments : List Bytes) :
    engine.Reverts (engine.setTensor arguments) := by
  unfold setTensor
  split
  · exact (Keeps.refl engine).reverts _
  · rename_i set _
    cases engine.keyspace.putTensor set.key set.tensor with
    | error cause => exact (Keeps.refl engine).reverts _
    | ok keyspace => exact .of_okay rfl

theorem reverts_deleteModel (engine : Engine) (arguments : List Bytes) :
    engine.Reverts (engine.deleteModel arguments) := by
  unfold deleteModel
  split
  · split
    · exact (Keeps.refl engine).reverts _
    · exact .of_okay rfl
  · exact (Keeps.refl engine).reverts _

theorem reverts_deleteScript (engine : Engine) (arguments : List Bytes) :
    engine.Reverts (engine.deleteScript arguments) := by
  unfold deleteScript
  split
  · split
    · exact (Keeps.refl engine).reverts _
    · exact .of_okay rfl
  · exact (Keeps.refl engine).reverts _

theorem reverts_info (engine : Engine) (arguments : List Bytes) :
    engine.Reverts (engine.info arguments) := by
  unfold info
  split
  · split <;> exact (Keeps.refl engine).reverts _
  · split
    · exact (Keeps.refl engine).reverts _
    · split
      · exact (Keeps.refl engine).reverts _
      · split
        · exact (Keeps.refl engine).reverts _
        · exact .of_okay rfl
  · exact (Keeps.refl engine).reverts _

theorem isError_apply (command : Command.ConfigCommand) (config : Config) :
    (command.apply config).2.isError = false := by
  cases command with
  | backendsPath path => rfl
  | modelChunkSize size => rfl
  | get name =>
      simp only [Command.ConfigCommand.apply]
      split <;> rfl

theorem reverts_configure (engine : Engine) (arguments : List Bytes) :
    engine.Reverts (engine.configure arguments) := by
  unfold configure
  split
  · exact (Keeps.refl engine).reverts _
  · rename_i command _
    intro cause failed
    have fine := isError_apply command engine.config
    rw [show (command.apply engine.config).2 = .error cause from failed] at fine
    cases fine

/-- A command of management changes nothing if it ends in an error. -/
theorem keeps_begin {arguments : List Bytes} {cause : Error}
    (named : Command.name arguments ∈ Management.names)
    (failed : (engine.begin arguments).2 = .finished (.error cause)) :
    engine.Keeps (engine.begin arguments).1 := by
  have reverted {step : Engine × Outcome Reply} (reverts : engine.Reverts step)
      (failed : (immediate step).2 = .finished (.error cause)) :
      engine.Keeps (immediate step).1 :=
    reverts cause (Progress.finished.inj failed)
  revert failed
  unfold Engine.begin
  dsimp only
  split
  · exact reverted (reverts_setTensor engine arguments)
  · exact fun _ => .refl engine
  · exact reverted (putsFree_storeModel engine _ arguments).reverts
  · exact reverted (putsFree_storeModel engine _ arguments).reverts
  · exact fun _ => .refl engine
  · exact reverted (reverts_deleteModel engine arguments)
  · exact fun _ => .refl engine
  · exact reverted (putsFree_storeScript engine _).reverts
  · exact reverted (putsFree_storeScript engine _).reverts
  · exact fun _ => .refl engine
  · exact reverted (reverts_deleteScript engine arguments)
  · exact fun _ => .refl engine
  · simp_all [Management.names]
  · simp_all [Management.names]
  · simp_all [Management.names]
  · simp_all [Management.names]
  · exact reverted (reverts_info engine arguments)
  · exact reverted (reverts_configure engine arguments)
  · simp_all [Management.names]

/-! ### Restores -/

/-- Values and settings are the same, and so are the queues and their statistics, but for a queue
that was opened for a device in vain. -/
structure Leaves (engine : Engine) (call : Management) (cause : Error) (later : Engine) :
    Prop where
  keyspace : later.keyspace = engine.keyspace
  config : later.config = engine.config
  ledger : later.dispatcher.ledger = engine.dispatcher.ledger
  dispatcher : (∀ device, ¬ engine.Strands call device) ∧ later.dispatcher = engine.dispatcher ∨
    ∃ device, engine.Strands call device ∧ cause = .wrongType ∧
      later.dispatcher = engine.dispatcher.openQueue device engine.threadsPerQueue

theorem Keeps.leaves {later : Engine} {call : Management} (kept : engine.Keeps later)
    (fitting : ∀ device, ¬ engine.Strands call device) (cause : Error) :
    engine.Leaves call cause later :=
  ⟨kept.keyspace, kept.config, congrArg Dispatcher.ledger kept.dispatcher,
    Or.inl ⟨fitting, kept.dispatcher⟩⟩

theorem Keeps.leaves_ready {later : Engine} {call : Management} {value : Value}
    (kept : engine.Keeps later)
    (strands : ∀ device, engine.Strands call device ↔
      value.device? = some device ∧ engine.queueOf? device = none) :
    engine.Leaves call .wrongType (later.readyFor value) := by
  cases runs : value.device? with
  | none =>
      have same : later.readyFor value = later := by rw [readyFor, runs, Option.elim_none]
      rw [same]
      refine kept.leaves (fun device stranded => ?_) .wrongType
      cases runs.symm.trans ((strands device).mp stranded).1
  | some device =>
      have served : later.queueOf? device = engine.queueOf? device := by
        unfold queueOf?
        rw [kept.dispatcher]
      have ready : later.readyFor value = (later.ensureQueue device).1 := by
        rw [readyFor, runs, Option.elim_some]
      rw [ready]
      unfold ensureQueue
      rw [served]
      cases found : engine.queueOf? device with
      | none =>
          have stranded := (strands device).mpr ⟨runs, found⟩
          refine ⟨kept.keyspace, kept.config, ?_, Or.inr ⟨device, stranded, rfl, ?_⟩⟩
          · exact congrArg (fun dispatcher => dispatcher.ledger) kept.dispatcher
          · simp only [kept.dispatcher, kept.threads]
      | some place =>
          refine kept.leaves (fun other stranded => ?_) .wrongType
          obtain ⟨same, unserved⟩ := (strands other).mp stranded
          cases runs.symm.trans same
          cases found.symm.trans unserved

theorem leaves_finish {call : Management} {cause : Error} {key : String}
    {loaded : Engine × Outcome Value} (load : engine.Load key loaded)
    (strands : ∀ device, engine.Strands call device ↔ ∃ value, loaded.2 = .ok value ∧
      ¬ engine.keyspace.Takes key value ∧ value.device? = some device ∧
        engine.queueOf? device = none)
    (failed : Reply.ofOutcome (finish key loaded).2 = .error cause) :
    engine.Leaves call cause (finish key loaded).1 := by
  have kept := load.keeps
  rcases loaded with ⟨loaded, reason | value⟩
  · refine kept.leaves (fun device stranded => ?_) cause
    obtain ⟨_, gives, _⟩ := (strands device).mp stranded
    cases gives
  · by_cases takes : loaded.keyspace.Takes key value
    · rw [finish, install_of_takes takes] at failed
      cases failed
    · rw [finish, install_of_refused takes] at failed ⊢
      cases failed
      rw [kept.keyspace] at takes
      refine kept.leaves_ready fun device => (strands device).trans ⟨?_, ?_⟩
      · rintro ⟨_, ⟨rfl⟩, _, runs, unserved⟩
        exact ⟨runs, unserved⟩
      · rintro ⟨runs, unserved⟩
        exact ⟨value, rfl, takes, runs, unserved⟩

theorem strands_model_iff {key : String} {data : Bytes} {device : Device} :
    engine.Strands (.restoreModel key data) device ↔
      ∃ value, (engine.decodeModel key data).2 = .ok value ∧ ¬ engine.keyspace.Takes key value ∧
        value.device? = some device ∧ engine.queueOf? device = none := by
  constructor
  · rintro (⟨read, loaded, taken, unserved⟩ | _)
    rename_i model
    refine ⟨.model model, ?_, ?_, ?_, unserved⟩
    · simp only [decodeModel, read, valued, loadModel, loaded, Except.map]
    · rw [← Keyspace.isFreeForModel_iff, taken]
      exact Bool.false_ne_true
    · obtain ⟨registration, handle, _, _, rfl⟩ := Model.load_eq_ok_iff.mp loaded
      rfl
  · rintro ⟨value, gives, refused, runs, unserved⟩
    unfold decodeModel at gives
    split at gives
    · cases gives
    · rename_i read
      obtain ⟨model, loaded, rfl⟩ := Outcome.map_eq_ok.mp gives
      obtain ⟨registration, handle, _, _, rfl⟩ := Model.load_eq_ok_iff.mp loaded
      rw [← Keyspace.isFreeForModel_iff, Bool.not_eq_true] at refused
      cases runs
      exact .model read loaded refused unserved

theorem strands_script_iff {key : String} {data : Bytes} {device : Device} :
    engine.Strands (.restoreScript key data) device ↔
      ∃ value, (engine.decodeScript key data).2 = .ok value ∧ ¬ engine.keyspace.Takes key value ∧
        value.device? = some device ∧ engine.queueOf? device = none := by
  constructor
  · rintro (_ | ⟨read, loaded, taken, unserved⟩)
    rename_i script
    refine ⟨.script script, ?_, ?_, ?_, unserved⟩
    · simp only [decodeScript, read, valued, loadScript, loaded, Except.map]
    · rw [← Keyspace.isFreeForScript_iff, taken]
      exact Bool.false_ne_true
    · obtain ⟨registration, handle, entryPoints, _, _, _, rfl⟩ := Script.load_eq_ok_iff.mp loaded
      rfl
  · rintro ⟨value, gives, refused, runs, unserved⟩
    unfold decodeScript at gives
    split at gives
    · cases gives
    · rename_i read
      obtain ⟨script, loaded, rfl⟩ := Outcome.map_eq_ok.mp gives
      obtain ⟨registration, handle, entryPoints, _, _, _, rfl⟩ := Script.load_eq_ok_iff.mp loaded
      rw [← Keyspace.isFreeForScript_iff, Bool.not_eq_true] at refused
      cases runs
      exact .script read loaded refused unserved

/-- A tensor needs no queue. -/
theorem strands_tensor_iff {key : String} {data : Bytes} {device : Device} :
    engine.Strands (.restoreTensor key data) device ↔
      ∃ value, (engine.decodeTensor data).2 = .ok value ∧ ¬ engine.keyspace.Takes key value ∧
        value.device? = some device ∧ engine.queueOf? device = none := by
  constructor
  · intro stranded
    cases stranded
  · rintro ⟨value, gives, _, runs, _⟩
    obtain ⟨tensor, _, rfl⟩ := Outcome.map_eq_ok.mp gives
    cases runs

/-- A call of management that ends in an error changes no value, no setting and no statistics, and
opens no queue, unless it restores something that loads to a key that holds something else. -/
theorem leaves_of_failure {call : Management} {cause : Error} (named : call.IsNamed)
    (failed : (engine.manage call).2 = .finished (.error cause)) :
    engine.Leaves call cause (engine.manage call).1 := by
  cases call with
  | command arguments =>
      refine (keeps_begin named failed).leaves (fun device stranded => ?_) cause
      cases stranded
  | restoreModel key data =>
      have step := restoreModel_eq engine key data
      simp only [manage, step, immediate] at failed ⊢
      exact leaves_finish (load_decodeModel ..) (fun _ => strands_model_iff)
        (Progress.finished.inj failed)
  | restoreScript key data =>
      have step := restoreScript_eq engine key data
      simp only [manage, step, immediate] at failed ⊢
      exact leaves_finish (load_decodeScript ..) (fun _ => strands_script_iff)
        (Progress.finished.inj failed)
  | restoreTensor key data =>
      have step := restoreTensor_eq engine key data
      simp only [manage, step, immediate] at failed ⊢
      exact leaves_finish (load_decodeTensor ..) (fun _ => strands_tensor_iff)
        (Progress.finished.inj failed)

namespace Sample

def occupied : Engine :=
  { (create .initial false).register (Probe.backend .torch) with
    keyspace := Keyspace.empty.set "host" (.foreign [120]) }

def definition : ModelDefinition := ⟨.torch, ⟨.gpu, none⟩, "", [], [], .disabled⟩

def restore : Management := .restoreModel "host" (Encoding.writeModel definition [50, 120, 50])

end Sample

/-- A model for another device is restored to the host's key: the store is as it was, but for a
queue that serves nothing. -/
theorem leaves_of_occupied :
    (Sample.occupied.manage Sample.restore).2 = .finished (.error .wrongType) ∧
      Sample.occupied.Strands Sample.restore Sample.definition.device ∧
      Sample.occupied.Leaves Sample.restore .wrongType
        (Sample.occupied.manage Sample.restore).1 :=
  ⟨rfl, .model rfl rfl rfl rfl, leaves_of_failure trivial rfl⟩

/-- A restore that fails changes which devices have a queue. -/
theorem failure_opens_queue : ∃ (engine : Engine) (call : Management) (cause : Error),
    call.IsNamed ∧ (engine.manage call).2 = .finished (.error cause) ∧
      (engine.manage call).1.dispatcher.queues.map RunQueue.device ≠
        engine.dispatcher.queues.map RunQueue.device :=
  ⟨Sample.occupied, Sample.restore, .wrongType, trivial, rfl, by decide⟩

end Engine

end InferenceStore
