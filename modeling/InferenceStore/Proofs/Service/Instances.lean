import InferenceStore.Proofs.Dag.Persist
import InferenceStore.Proofs.Queue.Counts
import InferenceStore.Proofs.Queue.Driver
import InferenceStore.Proofs.Service.Graphs
import InferenceStore.Proofs.Service.Loading

/-
What a store that started empty sees to. Its queues have come along a run of their own, in which
they are never closed. Every load has a number of its own, which names what was loaded wherever it
is: at a key, in a request, or in the operations of a graph that waits. So requests of one instance
ask for the same outputs, and a graph that goes on gets a tensor for each name it waits for.

The invariant is kept by each step that stores are made of, and from there by each command.
-/

namespace InferenceStore

/-- What has happened to the queues, and what was loaded under which number. -/
structure Records where
  past : History
  catalogue : InstanceId → Option Loaded

structure Records.Within (records later : Records) : Prop where
  pushed : records.past.pushed ⊆ later.past.pushed
  catalogue : ∀ id loaded, records.catalogue id = some loaded → later.catalogue id = some loaded

namespace Records.Within

variable {records later last : Records}

theorem refl (records : Records) : records.Within records :=
  ⟨List.Subset.refl _, fun _ _ known => known⟩

theorem trans (first : records.Within later) (second : later.Within last) :
    records.Within last :=
  ⟨List.Subset.trans first.pushed second.pushed,
    fun id loaded known => second.catalogue id loaded (first.catalogue id loaded known)⟩

end Records.Within

/-! ### What is known -/

def Value.Known (records : Records) : Value → Prop
  | .model m => records.catalogue m.id = some (.model m)
  | .script s => records.catalogue s.id = some (.script s)
  | _ => True

def Keyspace.Known (records : Records) (keyspace : Keyspace) : Prop :=
  ∀ key value, keyspace.get? key = some value → value.Known records

/-- The number names what the request runs, and a model is asked for all its outputs. -/
structure Request.Known (records : Records) (request : Request) : Prop where
  catalogued : records.catalogue request.target.instanceId = some request.target.loaded
  equipped : request.Equipped

def Op.Known (records : Records) (op : Op) : Prop :=
  ∀ target, op.target? = some target → records.catalogue target.instanceId = some target.loaded ∧
    ∀ model, target = .model model → op.outputs.length = model.outputCount

structure Execution.Known (records : Records) (execution : Execution) : Prop where
  rest : ∀ op ∈ execution.rest, op.Known records
  asked : ∃ request ∈ records.past.pushed, request.id = execution.request ∧
    request.outputCount = execution.outputs.length

section Known

variable {records later : Records} {keyspace : Keyspace}

theorem Value.Known.mono {value : Value} (known : value.Known records)
    (within : records.Within later) : value.Known later := by
  cases value with
  | model model => exact within.catalogue _ _ known
  | script script => exact within.catalogue _ _ known
  | _ => trivial

theorem Request.Known.mono {request : Request} (known : request.Known records)
    (within : records.Within later) : request.Known later :=
  ⟨within.catalogue _ _ known.catalogued, known.equipped⟩

theorem Op.Known.mono {op : Op} (known : op.Known records) (within : records.Within later) :
    op.Known later :=
  fun target runs => ⟨within.catalogue _ _ (known target runs).1, (known target runs).2⟩

theorem Execution.Known.mono {execution : Execution} (known : execution.Known records)
    (within : records.Within later) : execution.Known later := by
  obtain ⟨request, pushed, asked⟩ := known.asked
  exact ⟨fun op member => (known.rest op member).mono within, request, within.pushed pushed, asked⟩

namespace Keyspace.Known

theorem set (known : keyspace.Known records) (key : String) {value : Value}
    (knownToo : value.Known records) : (keyspace.set key value).Known records := by
  intro other found held
  rw [get?_set] at held
  split at held
  · cases held
    exact knownToo
  · exact known other found held

theorem remove (known : keyspace.Known records) (key : String) :
    (keyspace.remove key).Known records := by
  intro other found held
  rw [get?_remove] at held
  split at held
  · cases held
  · exact known other found held

theorem offer (known : keyspace.Known records) (put : String × Tensor) :
    (keyspace.offer put).Known records := by
  unfold Keyspace.offer
  split
  · exact known.set put.1 trivial
  · exact known

theorem persist (known : keyspace.Known records) (context : Context) (names : List String) :
    (InferenceStore.persist context keyspace names).1.Known records := by
  rw [Context.keyspace_of_persist]
  induction context.puts names generalizing keyspace with
  | nil => exact known
  | cons put rest ih => exact ih (known.offer put)

theorem put (known : keyspace.Known records) {key : String} {value : Value} {next : Keyspace}
    (knownToo : value.Known records) (put : keyspace.put key value = .ok next) :
    next.Known records := by
  unfold Keyspace.put at put
  split at put
  · cases put
    exact known.set key knownToo
  · cases put

theorem held (known : keyspace.Known records) {op : Op} (held : op.Held keyspace) :
    op.Known records := by
  intro target runs
  cases op with
  | model run =>
      cases runs
      obtain ⟨key, found⟩ := held.held
      refine ⟨known key _ found, ?_⟩
      rintro model ⟨rfl⟩
      exact held.outputs
  | script run =>
      cases runs
      obtain ⟨key, found⟩ := held
      exact ⟨known key _ found, nofun⟩
  | tensorSet set => cases runs
  | tensorGet get => cases runs

end Keyspace.Known

end Known

theorem Model.id_of_load {registry : BackendRegistry} {config : Config} {id : InstanceId}
    {key : String} {definition : ModelDefinition} {blob : Bytes} {model : Model}
    (loaded : Model.load registry config id key definition blob = .ok model) : model.id = id := by
  obtain ⟨registration, _, loaded⟩ := Outcome.bind_eq_ok.mp loaded
  obtain ⟨handle, _, loaded⟩ := Outcome.bind_eq_ok.mp loaded
  cases loaded
  rfl

theorem Script.id_of_load {registry : BackendRegistry} {id : InstanceId} {key : String}
    {definition : ScriptDefinition} {script : Script}
    (loaded : Script.load registry id key definition = .ok script) : script.id = id := by
  obtain ⟨registration, _, loaded⟩ := Outcome.bind_eq_ok.mp loaded
  obtain ⟨handle, _, loaded⟩ := Outcome.bind_eq_ok.mp loaded
  obtain ⟨entryPoints, _, loaded⟩ := Outcome.bind_eq_ok.mp loaded
  cases loaded
  rfl

/-! ### Sound stores -/

/-- The queues have come along the recorded run, and all that is to be known is. -/
structure Engine.Sound (engine : Engine) (records : Records) : Prop where
  run : ∃ state, Run records.past state ∧ state.Alike engine.dispatcher
  numbered : ∀ request ∈ records.past.pushed, request.id < engine.dispatcher.nextRequest
  unclosed : ∀ moment ∈ records.past, ∀ place, moment.event ≠ .close place
  requests : ∀ request ∈ records.past.pushed, request.Known records
  keys : engine.keyspace.Known records
  fresh : ∀ id, engine.nextInstance ≤ id → records.catalogue id = none

def Engine.SoundAfter (engine : Engine) (records : Records) : Prop :=
  ∃ later, records.Within later ∧ engine.Sound later

namespace Engine

variable {engine : Engine} {records : Records}

namespace Sound

theorem after (sound : engine.Sound records) : engine.SoundAfter records :=
  ⟨records, .refl records, sound⟩

theorem withKeyspace (sound : engine.Sound records) {keyspace : Keyspace}
    (known : keyspace.Known records) : Sound { engine with keyspace := keyspace } records :=
  ⟨sound.run, sound.numbered, sound.unclosed, sound.requests, known, sound.fresh⟩

theorem withDispatcher (sound : engine.Sound records) {dispatcher : Dispatcher}
    (alike : engine.dispatcher.Alike dispatcher)
    (numbers : dispatcher.nextRequest = engine.dispatcher.nextRequest) :
    Sound { engine with dispatcher := dispatcher } records := by
  obtain ⟨state, run, same⟩ := sound.run
  exact ⟨⟨state, run, same.trans alike⟩, numbers ▸ sound.numbered, sound.unclosed, sound.requests,
    sound.keys, sound.fresh⟩

/-- One step of the queues, which may push a request of the next number. -/
theorem step (sound : engine.Sound records) (event : Event)
    (permitted : engine.dispatcher.permits event = true)
    (stays : ∀ place, event ≠ .close place)
    (numbered : ∀ request ∈ event.pushed, request.id = engine.dispatcher.nextRequest)
    (known : ∀ request ∈ event.pushed, request.Known records) :
    ∃ later, records.Within later ∧ event.pushed ⊆ later.past.pushed ∧
      Sound { engine with dispatcher := engine.dispatcher.after event } later := by
  obtain ⟨state, run, alike⟩ := sound.run
  have allowed : state.permits event = true := (alike.permits event).trans permitted
  have pushed : History.pushed (records.past ++ [⟨state, event⟩]) =
      records.past.pushed ++ event.pushed := History.pushed_snoc ..
  have within : records.Within ⟨records.past ++ [⟨state, event⟩], records.catalogue⟩ :=
    ⟨by rw [pushed]; exact List.subset_append_left .., fun _ _ known => known⟩
  refine ⟨_, within, by rw [pushed]; exact List.subset_append_right .., ?_, ?_, ?_, ?_, ?_, ?_⟩
  · refine ⟨_, run.step event allowed ?_, alike.after allowed⟩
    intro request member earlier
    obtain ⟨other, before, same⟩ := List.mem_map.mp earlier
    have below := sound.numbered other before
    rw [same, numbered request member] at below
    exact Nat.lt_irrefl _ below
  · intro request member
    change request.id < (engine.dispatcher.after event).nextRequest
    rw [Dispatcher.nextRequest_after]
    rw [pushed] at member
    rcases List.mem_append.mp member with before | last
    · exact Nat.lt_of_lt_of_le (sound.numbered request before) (Nat.le_add_right ..)
    · rw [numbered request last]
      exact Nat.lt_add_of_pos_right (List.length_pos_of_mem last)
  · exact List.forall_mem_append.mpr ⟨sound.unclosed, List.forall_mem_singleton.mpr stays⟩
  · intro request member
    rw [pushed] at member
    rcases List.mem_append.mp member with before | last
    · exact (sound.requests request before).mono within
    · exact (known request last).mono within
  · exact fun key value held => (sound.keys key value held).mono within
  · exact sound.fresh

theorem work (sound : engine.Sound records) {event : Event} (works : event.isWork = true)
    (permitted : engine.dispatcher.permits event = true) :
    SoundAfter { engine with dispatcher := engine.dispatcher.after event } records := by
  have quiet : event.pushed = [] := by cases event <;> first | rfl | cases works
  have nothing {motive : Request → Prop} : ∀ request ∈ event.pushed, motive request := by
    rw [quiet]
    exact fun _ member => (List.not_mem_nil member).elim
  have stays : ∀ place, event ≠ .close place := by
    rintro place rfl
    cases works
  obtain ⟨later, within, _, soundLater⟩ := sound.step event permitted stays nothing nothing
  exact ⟨later, within, soundLater⟩

theorem congr {other : Engine} (sound : engine.Sound records)
    (dispatcher : other.dispatcher = engine.dispatcher) (keys : other.keyspace = engine.keyspace)
    (instances : other.nextInstance = engine.nextInstance) : other.Sound records := by
  refine ⟨?_, ?_, sound.unclosed, sound.requests, ?_, ?_⟩
  · rw [dispatcher]
    exact sound.run
  · rw [dispatcher]
    exact sound.numbered
  · rw [keys]
    exact sound.keys
  · rw [instances]
    exact sound.fresh

end Sound

theorem SoundAfter.bind {other : Engine} (first : engine.SoundAfter records)
    (next : ∀ later, records.Within later → engine.Sound later → other.SoundAfter later) :
    other.SoundAfter records := by
  obtain ⟨later, within, sound⟩ := first
  obtain ⟨last, onward, soundLast⟩ := next later within sound
  exact ⟨last, within.trans onward, soundLast⟩

/-! ### Steps of a store -/

namespace Sound

theorem ensureQueue (sound : engine.Sound records) (device : Device) :
    (engine.ensureQueue device).1.SoundAfter records := by
  unfold Engine.ensureQueue
  split
  · exact sound.after
  · obtain ⟨later, within, _, opened⟩ := sound.step (.openQueue device engine.threadsPerQueue) rfl
      nofun (fun _ member => (List.not_mem_nil member).elim)
      fun _ member => (List.not_mem_nil member).elim
    exact ⟨later, within, opened⟩

theorem number (sound : engine.Sound records) (given : Option Loaded) :
    ∃ later, records.Within later ∧
      Sound { engine with nextInstance := engine.nextInstance + 1 } later ∧
      later.catalogue engine.nextInstance = given := by
  let catalogue := fun id => if id = engine.nextInstance then given else records.catalogue id
  have within : records.Within ⟨records.past, catalogue⟩ := by
    refine ⟨List.Subset.refl _, fun id loaded known => ?_⟩
    have apart : id ≠ engine.nextInstance := by
      rintro rfl
      rw [sound.fresh _ (Nat.le_refl _)] at known
      cases known
    exact (if_neg apart).trans known
  refine ⟨_, within, ⟨sound.run, sound.numbered, sound.unclosed, ?_, ?_, ?_⟩, if_pos rfl⟩
  · exact fun request pushed => (sound.requests request pushed).mono within
  · exact fun key value held => (sound.keys key value held).mono within
  · intro id above
    have apart : id ≠ engine.nextInstance := Nat.ne_of_gt above
    exact (if_neg apart).trans (sound.fresh id (Nat.le_of_succ_le above))

/-- A load takes the next number, which names what was loaded. -/
theorem valued {α : Type} {kind : α → Value} (sound : engine.Sound records) (named : α → Loaded)
    {loaded : Engine × Outcome α} (kept : engine.Keeps loaded.1)
    (numbered : loaded.1.nextInstance = engine.nextInstance + 1)
    (knows : ∀ item, loaded.2 = .ok item → ∀ later : Records,
      later.catalogue engine.nextInstance = some (named item) → (kind item).Known later) :
    ∃ later, records.Within later ∧ (Engine.valued kind loaded).1.Sound later ∧
      ∀ value, (Engine.valued kind loaded).2 = .ok value → value.Known later := by
  obtain ⟨later, within, soundLater, given⟩ := sound.number (loaded.2.toOption.map named)
  refine ⟨later, within, soundLater.congr kept.dispatcher kept.keyspace numbered, ?_⟩
  intro value loads
  obtain ⟨item, gives, rfl⟩ := Outcome.map_eq_ok.mp loads
  rw [gives] at given
  exact knows item gives later given

theorem write (sound : engine.Sound records) {written : Outcome Keyspace}
    (known : ∀ keyspace, written = .ok keyspace → keyspace.Known records) :
    (engine.write written).1.SoundAfter records := by
  cases written with
  | error cause => exact sound.after
  | ok keyspace => exact (sound.withKeyspace (known keyspace rfl)).after

theorem load (sound : engine.Sound records) {key : String} {loaded : Engine × Outcome Value}
    (load : engine.Load key loaded) : ∃ later, records.Within later ∧ loaded.1.Sound later ∧
      ∀ value, loaded.2 = .ok value → value.Known later := by
  cases load with
  | fails cause => exact ⟨records, .refl records, sound, nofun⟩
  | tensor tensor =>
      refine ⟨records, .refl records, sound, ?_⟩
      rintro value ⟨rfl⟩
      trivial
  | model definition blob =>
      apply sound.valued Loaded.model (keeps_loadModel engine key definition blob) rfl
      intro model loads later known
      rwa [Value.Known, Model.id_of_load loads]
  | script definition =>
      apply sound.valued Loaded.script (keeps_loadScript engine key definition) rfl
      intro script loads later known
      rwa [Value.Known, Script.id_of_load loads]

theorem install (sound : engine.Sound records) (key : String) {value : Value}
    (known : value.Known records) : (engine.install key value).1.SoundAfter records := by
  have opened : (engine.readyFor value).SoundAfter records := by
    unfold readyFor
    cases value.device? with
    | none => exact sound.after
    | some device => exact sound.ensureQueue device
  refine opened.bind fun later within ready => ?_
  have keys : engine.keyspace.Known later := keyspace_readyFor engine value ▸ ready.keys
  exact ready.write fun keyspace put => keys.put (known.mono within) put

theorem puts (sound : engine.Sound records) {step : Engine × Outcome Reply}
    (puts : engine.Puts step) : step.1.SoundAfter records := by
  obtain ⟨key, loaded, load, rfl⟩ := puts
  obtain ⟨later, within, soundLater, known⟩ := sound.load load
  rcases loaded with ⟨loaded, cause | value⟩
  · exact ⟨later, within, soundLater⟩
  · obtain ⟨last, onward, installed⟩ := soundLater.install key (known value rfl)
    exact ⟨last, within.trans onward, installed⟩

end Sound

theorem place_of_ensureQueue (engine : Engine) (device : Device) :
    (engine.ensureQueue device).2 < (engine.ensureQueue device).1.dispatcher.queues.length := by
  unfold Engine.ensureQueue
  split
  · rename_i place found
    exact (List.findIdx?_eq_some_iff_findIdx_eq.mp found).1
  · simp only [Dispatcher.openQueue, List.length_append, List.length_singleton]
    exact Nat.lt_succ_self _

theorem Sound.submit (sound : engine.Sound records) {target : Target} (inputs : List Tensor)
    {outputCount : Nat} (deadline : Option Nat)
    (catalogued : records.catalogue target.instanceId = some target.loaded)
    (equipped : ∀ model, target = .model model → outputCount = model.outputCount) :
    ∃ later, records.Within later ∧
      (engine.submit target inputs outputCount deadline).1.Sound later ∧
      ∃ request ∈ later.past.pushed,
        request.id = (engine.submit target inputs outputCount deadline).2 ∧
          request.outputCount = outputCount := by
  obtain ⟨opened, within, ready⟩ := sound.ensureQueue target.device
  have place := place_of_ensureQueue engine target.device
  let request := (engine.ensureQueue target.device).1.dispatcher.newRequest target inputs
    outputCount deadline
  have permitted : (engine.ensureQueue target.device).1.dispatcher.permits
      (.push (engine.ensureQueue target.device).2 request) = true := by
    simp [Dispatcher.permits, Dispatcher.queueOf?, Event.place?, place, RunQueue.permits]
  obtain ⟨later, onward, pushed, soundLater⟩ := ready.step _ permitted
    (fun _ same => by cases same)
    (by intro other member; rw [List.mem_singleton.mp member]; rfl)
    (by
      intro other member
      rw [List.mem_singleton.mp member]
      exact ⟨within.catalogue _ _ catalogued, equipped⟩)
  exact ⟨later, within.trans onward, soundLater, request, pushed (List.mem_singleton.mpr rfl), rfl,
    rfl⟩

end Engine

end InferenceStore
