import InferenceStore.Proofs.Command.Arguments
import InferenceStore.Proofs.Service.Management
import Mathlib.Logic.Relation

/-
What a store is made to do, in single steps. Commands, clients that go on and restores change a
store in few ways: something is noted aside, one value is put at a key that takes it, or one event
happens to the queues, which are opened for devices without one and get requests for their own
device only. Whatever they do is some of these steps in turn, but for the commands that delete a
model or script. So what each step keeps is kept by all of them.
-/

namespace InferenceStore

open Command

/-- Some backend has loaded the model for the key. -/
def Model.LoadedFor (model : Model) (key : String) : Prop :=
  ∃ registry config id definition blob,
    Model.load registry config id key definition blob = .ok model

def Script.LoadedFor (script : Script) (key : String) : Prop :=
  ∃ registry id definition, Script.load registry id key definition = .ok script

def Dispatcher.devices (dispatcher : Dispatcher) : List Device :=
  dispatcher.queues.map RunQueue.device

namespace Engine

def Serves (engine : Engine) (device : Device) : Prop := device ∈ engine.dispatcher.devices

/-- The value belongs at the key: it was loaded for it, and its device has a queue. -/
def Settles (engine : Engine) (key : String) : Value → Prop
  | .tensor _ => True
  | .model model => model.LoadedFor key ∧ engine.Serves model.definition.device
  | .script script => script.LoadedFor key ∧ engine.Serves script.device
  | .foreign _ => False

/-- A queue is opened for a device that has none, gets requests for its own device, and is never
closed. -/
def Fits (engine : Engine) : Event → Prop
  | .openQueue device _ => ¬ engine.Serves device
  | .push place request => ∀ queue, engine.dispatcher.queues[place]? = some queue →
      request.target.device = queue.device
  | .close _ => False
  | _ => True

inductive Step : Engine → Engine → Prop
  /-- Settings, backends and what they were told, numbers of instances. -/
  | notes {engine later : Engine} (keyspace : later.keyspace = engine.keyspace)
      (dispatcher : later.dispatcher = engine.dispatcher) : Step engine later
  | puts {engine : Engine} {key : String} {value : Value} (takes : engine.keyspace.Takes key value)
      (settles : engine.Settles key value) :
      Step engine { engine with keyspace := engine.keyspace.set key value }
  | happens {engine : Engine} (event : Event) (permitted : engine.dispatcher.permits event = true)
      (fits : engine.Fits event) :
      Step engine { engine with dispatcher := engine.dispatcher.after event }
  | reorders {engine : Engine} (turns calls : List WorkerId) :
      Step engine
        { engine with dispatcher := { engine.dispatcher with turns := turns, calls := calls } }

abbrev Moves (engine later : Engine) : Prop := Relation.ReflTransGen Step engine later

variable {engine later : Engine}

theorem Step.moves (step : engine.Step later) : engine.Moves later := .single step

theorem moves_refl (engine : Engine) : engine.Moves engine := .refl

theorem Keeps.moves (kept : engine.Keeps later) : engine.Moves later :=
  Step.moves (.notes kept.keyspace kept.dispatcher)

/-! ### Puts -/

theorem moves_put {key : String} {value : Value} (settles : engine.Settles key value) :
    engine.Moves (engine.write (engine.keyspace.put key value)).1 := by
  unfold Keyspace.put
  split
  · rename_i takes
    exact Step.moves (.puts takes settles)
  · exact moves_refl engine

theorem moves_persist (engine : Engine) (context : Context) (names : List String) :
    engine.Moves { engine with keyspace := (persist context engine.keyspace names).1 } := by
  rw [Context.keyspace_of_persist]
  induction context.puts names generalizing engine with
  | nil => exact moves_refl engine
  | cons put rest ih =>
      have first : engine.Moves { engine with keyspace := engine.keyspace.offer put } := by
        have settles : engine.Settles put.1 (.tensor put.2) := trivial
        have written := moves_put settles
        rw [← Keyspace.putTensor_eq_put] at written
        rw [Keyspace.putTensor_eq] at written
        cases admitted : engine.keyspace.admitsTensor put.1 with
        | true => simpa only [Keyspace.offer, admitted, if_true, write] using written
        | false => simpa only [Keyspace.offer, admitted, Bool.false_eq_true, if_false] using
            moves_refl engine
      exact first.trans (ih { engine with keyspace := engine.keyspace.offer put })

/-! ### Queues -/

theorem queueOf?_eq_none {device : Device} :
    engine.queueOf? device = none ↔ ¬ engine.Serves device := by
  unfold queueOf? Serves Dispatcher.devices
  rw [List.findIdx?_eq_none_iff]
  simp

theorem found_of_queueOf? {device : Device} {place : Nat}
    (found : engine.queueOf? device = some place) :
    ∃ queue, engine.dispatcher.queues[place]? = some queue ∧ queue.device = device := by
  obtain ⟨within, matched, _⟩ := List.findIdx?_eq_some_iff_getElem.mp found
  exact ⟨_, List.getElem?_eq_getElem within, eq_of_beq matched⟩

theorem moves_ensureQueue (engine : Engine) (device : Device) :
    engine.Moves (engine.ensureQueue device).1 := by
  unfold ensureQueue
  split
  · exact moves_refl engine
  · rename_i absent
    exact Step.moves (.happens (.openQueue device engine.threadsPerQueue) rfl
      (queueOf?_eq_none.mp absent))

theorem found_ensureQueue (engine : Engine) (device : Device) :
    ∃ queue, (engine.ensureQueue device).1.dispatcher.queues[(engine.ensureQueue device).2]? =
      some queue ∧ queue.device = device := by
  unfold ensureQueue
  split
  · rename_i place found
    exact found_of_queueOf? found
  · exact ⟨_, List.getElem?_concat_length .., rfl⟩

theorem serves_ensureQueue (engine : Engine) (device : Device) :
    (engine.ensureQueue device).1.Serves device := by
  obtain ⟨queue, found, same⟩ := found_ensureQueue engine device
  exact List.mem_map.mpr ⟨queue, List.mem_of_getElem? found, same⟩

theorem moves_submit (engine : Engine) (target : Target) (inputs : List Tensor)
    (outputCount : Nat) (deadline : Option Nat) :
    engine.Moves (engine.submit target inputs outputCount deadline).1 := by
  obtain ⟨queue, found, same⟩ := found_ensureQueue engine target.device
  have place := place_of_ensureQueue engine target.device
  let ready := (engine.ensureQueue target.device).1
  let event : Event := .push (engine.ensureQueue target.device).2
    (ready.dispatcher.newRequest target inputs outputCount deadline)
  have permitted : ready.dispatcher.permits event = true := by
    simp [ready, event, Dispatcher.permits, Dispatcher.queueOf?, Event.place?, place,
      RunQueue.permits]
  have fits : ready.Fits event := by
    intro other foundToo
    cases found.symm.trans foundToo
    exact same.symm
  exact (moves_ensureQueue engine target.device).trans
    (Step.moves (.happens event permitted fits))

/-! ### Management -/

theorem settles_of_load {key : String} {loaded : Engine × Outcome Value}
    (load : engine.Load key loaded) {value : Value} (gives : loaded.2 = .ok value)
    (served : ∀ device, value.device? = some device → later.Serves device) :
    later.Settles key value := by
  cases load with
  | fails => cases gives
  | tensor =>
      cases gives
      trivial
  | model definition blob =>
      obtain ⟨model, loads, rfl⟩ := Outcome.map_eq_ok.mp gives
      exact ⟨⟨_, _, _, _, _, loads⟩, served _ rfl⟩
  | script definition =>
      obtain ⟨script, loads, rfl⟩ := Outcome.map_eq_ok.mp gives
      exact ⟨⟨_, _, _, loads⟩, served _ rfl⟩

theorem moves_readyFor (engine : Engine) (value : Value) :
    engine.Moves (engine.readyFor value) := by
  unfold readyFor
  cases value.device? with
  | none => exact moves_refl engine
  | some device => exact moves_ensureQueue engine device

theorem serves_readyFor (engine : Engine) {value : Value} {device : Device}
    (runs : value.device? = some device) : (engine.readyFor value).Serves device := by
  unfold readyFor
  rw [runs]
  exact serves_ensureQueue engine device

theorem moves_puts {step : Engine × Outcome Reply} (puts : engine.Puts step) :
    engine.Moves step.1 := by
  obtain ⟨key, ⟨loaded, cause | value⟩, load, rfl⟩ := puts
  · exact load.keeps.moves
  · have settles : (loaded.readyFor value).Settles key value :=
      settles_of_load load rfl fun device runs => serves_readyFor loaded runs
    have put := moves_put settles
    rw [keyspace_readyFor] at put
    exact load.keeps.moves.trans ((moves_readyFor loaded value).trans put)

theorem moves_info (engine : Engine) (arguments : List Bytes) :
    engine.Moves (engine.info arguments).1 := by
  unfold info
  split
  · split <;> exact moves_refl engine
  · split
    · exact moves_refl engine
    · split
      · exact moves_refl engine
      · split
        · exact moves_refl engine
        · rename_i id _ _
          exact Step.moves (.happens (.reset id) rfl trivial)
  · exact moves_refl engine

theorem moves_configure (engine : Engine) (arguments : List Bytes) :
    engine.Moves (engine.configure arguments).1 := by
  unfold configure
  split
  · exact moves_refl engine
  · exact Step.moves (.notes rfl rfl)

/-! ### Graphs -/

theorem moves_runOps (engine : Engine) (dag : Dag) (deadline : Option Nat) (context : Context)
    (replies : List Reply) (ops : List Op) :
    engine.Moves (engine.runOps dag deadline context replies ops).1 := by
  obtain ⟨deeds, final, _, turn⟩ := engine.runOps_turn dag deadline context replies ops
  generalize engine.runOps dag deadline context replies ops = outcome at turn
  cases turn with
  | ended course told => exact moves_persist engine _ _
  | asks course told step => exact moves_submit engine _ _ _ _

theorem moves_startParsed (engine : Engine) (parsed : Outcome Dag) :
    engine.Moves (engine.startParsed parsed).1 := by
  cases parsed with
  | error cause => exact moves_refl engine
  | ok dag =>
      unfold startParsed
      cases refusal : engine.refusal? dag with
      | some cause =>
          dsimp only
          rw [start_of_refusal refusal]
      | none =>
          obtain ⟨loaded, _, runs⟩ := start_of_accepted refusal
          dsimp only
          rw [runs]
          exact moves_runOps ..

theorem moves_resume (engine : Engine) (execution : Execution) (result : Outcome (List Tensor)) :
    engine.Moves (engine.resume execution result).1 := by
  unfold resume
  dsimp only
  split
  · exact moves_runOps ..
  · exact moves_refl engine
  · exact moves_runOps ..

/-! ### Commands -/

inductive Deletes (engine : Engine) (arguments : List Bytes) (key : String) : Prop
  | model {model : Model} {name : Bytes} (named : Command.name arguments = "AI.MODELDEL")
      (told : arguments = [name, Text.encode key])
      (held : engine.keyspace.get? key = some (.model model)) : Deletes engine arguments key
  | script {script : Script} {name : Bytes} (named : Command.name arguments = "AI.SCRIPTDEL")
      (told : arguments = [name, Text.encode key])
      (held : engine.keyspace.get? key = some (.script script)) : Deletes engine arguments key

/-- A store goes on in steps, or a value has been deleted from it. -/
def Goes (engine : Engine) (arguments : List Bytes) (later : Engine) : Prop :=
  engine.Moves later ∨ ∃ key, engine.Deletes arguments key ∧
    later = { engine with keyspace := engine.keyspace.remove key }

theorem goes_deleteModel {arguments : List Bytes}
    (named : Command.name arguments = "AI.MODELDEL") :
    engine.Goes arguments (engine.deleteModel arguments).1 := by
  unfold deleteModel
  split
  · split
    · exact Or.inl (moves_refl engine)
    · rename_i read
      obtain ⟨key, spelled, found⟩ := Outcome.bind_eq_ok.mp read
      obtain ⟨model, held, rfl⟩ := Outcome.map_eq_ok.mp found
      obtain rfl := text_eq_ok_iff.mp spelled
      exact Or.inr ⟨key, .model named rfl (Keyspace.getModel_eq_ok.mp held), rfl⟩
  · exact Or.inl (moves_refl engine)

theorem goes_deleteScript {arguments : List Bytes}
    (named : Command.name arguments = "AI.SCRIPTDEL") :
    engine.Goes arguments (engine.deleteScript arguments).1 := by
  unfold deleteScript
  split
  · split
    · exact Or.inl (moves_refl engine)
    · rename_i read
      obtain ⟨key, spelled, found⟩ := Outcome.bind_eq_ok.mp read
      obtain ⟨script, held, rfl⟩ := Outcome.map_eq_ok.mp found
      obtain rfl := text_eq_ok_iff.mp spelled
      exact Or.inr ⟨key, .script named rfl (Keyspace.getScript_eq_ok.mp held), rfl⟩
  · exact Or.inl (moves_refl engine)

theorem goes_begin (engine : Engine) (arguments : List Bytes) :
    engine.Goes arguments (engine.begin arguments).1 := by
  unfold Engine.begin
  dsimp only
  split
  · exact Or.inl (moves_puts (puts_setTensor engine arguments))
  · exact Or.inl (moves_refl engine)
  · exact Or.inl (moves_puts (putsFree_storeModel engine _ arguments).puts)
  · exact Or.inl (moves_puts (putsFree_storeModel engine _ arguments).puts)
  · exact Or.inl (moves_refl engine)
  · rename_i named
    exact goes_deleteModel named
  · exact Or.inl (moves_refl engine)
  · exact Or.inl (moves_puts (putsFree_storeScript engine _).puts)
  · exact Or.inl (moves_puts (putsFree_storeScript engine _).puts)
  · exact Or.inl (moves_refl engine)
  · rename_i named
    exact goes_deleteScript named
  · exact Or.inl (moves_refl engine)
  · exact Or.inl (moves_startParsed engine _)
  · exact Or.inl (moves_startParsed engine _)
  · exact Or.inl (moves_startParsed engine _)
  · exact Or.inl (moves_startParsed engine _)
  · exact Or.inl (moves_info engine arguments)
  · exact Or.inl (moves_configure engine arguments)
  · split
    · exact Or.inl (moves_startParsed engine _)
    · exact Or.inl (moves_refl engine)

end Engine

end InferenceStore
