import InferenceStore.Proofs.Service.Steps

/-
Stores that stay consistent. Values lie at the keys that they were loaded for, every device has one
queue at most and every loaded value one of its own, and requests lie in the queue of their device.
A store that starts with nothing but values of the host stays so, whatever clients do and however
they take turns, and its values keep their kinds until a command deletes them.

Each single step keeps the parts of the invariant; runs follow by induction on their steps. A graph
that goes on late is no special case, since what it writes is tried against the keys of that moment.
-/

namespace InferenceStore

/-! ### Queues -/

theorem RunQueue.device_after (queue : RunQueue) (now : Nat) (event : Event) :
    (queue.after now event).device = queue.device := by
  cases event with
  | push place request =>
      simp only [RunQueue.after]
      split <;> rfl
  | _ => rfl

/-- All that waits in the queue, or is held by one of its workers, is for its device. -/
def RunQueue.Own (queue : RunQueue) : Prop :=
  ∀ request ∈ queue.pending ++ queue.held, request.target.device = queue.device

theorem RunQueue.own_opened (device : Device) (threads : Nat) :
    (RunQueue.opened device threads).Own := by
  have nothing : (RunQueue.opened device threads).held = [] := by
    simp [opened, held, Worker.group]
  intro request member
  rw [nothing] at member
  exact (List.not_mem_nil member).elim

theorem RunQueue.Own.after {queue : RunQueue} (own : queue.Own) (now : Nat) {event : Event}
    (permitted : queue.permits event = true)
    (pushed : ∀ request ∈ event.pushed, request.target.device = queue.device) :
    (queue.after now event).Own := by
  intro request member
  rw [RunQueue.device_after]
  have among := (queue.conserves now permitted).subset (List.mem_append_left _ member)
  rcases List.mem_append.mp among with had | given
  · exact own request had
  · exact pushed request given

def Event.opens : Event → List Device
  | .openQueue device _ => [device]
  | _ => []

theorem Dispatcher.devices_after {dispatcher : Dispatcher} {event : Event}
    (permitted : dispatcher.permits event = true) :
    (dispatcher.after event).devices = dispatcher.devices ++ event.opens := by
  cases placed : event.place? with
  | some place =>
      obtain ⟨queue, found, allowed⟩ := permits_place placed permitted
      have nothing : event.opens = [] := by cases event <;> first | rfl | cases placed
      have here : dispatcher.devices[place]? = some queue.device := by
        rw [devices, List.getElem?_map, found, Option.map_some]
      obtain ⟨within, same⟩ := List.getElem?_eq_some_iff.mp here
      rw [nothing, List.append_nil, devices, (Change.of_place placed found allowed).queues,
        List.map_set, RunQueue.device_after, ← same]
      exact List.set_getElem_self within
  | none =>
      cases event with
      | openQueue device threads => exact List.map_append
      | advance moment => exact (List.append_nil _).symm
      | reset account => exact (List.append_nil _).symm
      | _ => cases placed

namespace Engine

/-! ### What steps keep -/

/-- Loaded values settle, no device has two queues, and requests are for the device of their
queue, waiting or held by a worker. -/
structure Regular (engine : Engine) : Prop where
  values : ∀ key value, engine.keyspace.get? key = some value →
    engine.Settles key value ∨ ∃ data, value = .foreign data
  devices : engine.dispatcher.devices.Nodup
  requests : ∀ queue ∈ engine.dispatcher.queues, queue.Own

/-- A held value is followed by one of its kind, and a value of the host stays what it is. -/
def Carries (engine later : Engine) : Prop :=
  ∀ key held, engine.keyspace.get? key = some held →
    ∃ value, later.keyspace.get? key = some value ∧ value.typeName = held.typeName ∧
      ∀ data, held = .foreign data → value = .foreign data

variable {engine later : Engine} {key : String} {value : Value}

theorem Settles.mono (settles : engine.Settles key value)
    (served : ∀ device, engine.Serves device → later.Serves device) : later.Settles key value := by
  cases value with
  | tensor tensor => trivial
  | model model => exact ⟨settles.1, served _ settles.2⟩
  | script script => exact ⟨settles.1, served _ settles.2⟩
  | foreign data => exact settles.elim

theorem Step.serves (step : engine.Step later) {device : Device} (served : engine.Serves device) :
    later.Serves device := by
  cases step with
  | notes keyspace dispatcher =>
      unfold Serves
      rw [dispatcher]
      exact served
  | puts takes settles => exact served
  | happens event permitted fits =>
      unfold Serves
      rw [Dispatcher.devices_after permitted]
      exact List.mem_append_left _ served
  | reorders turns calls => exact served

theorem requests_after {event : Event} (requests : ∀ queue ∈ engine.dispatcher.queues, queue.Own)
    (permitted : engine.dispatcher.permits event = true) (fits : engine.Fits event) :
    ∀ queue ∈ (engine.dispatcher.after event).queues, queue.Own := by
  intro queue member
  obtain ⟨place, found⟩ := List.getElem?_of_mem member
  cases before : engine.dispatcher.queues[place]? with
  | none =>
      obtain ⟨device, threads, rfl, rfl⟩ := Dispatcher.opened_of_absent permitted before found
      exact RunQueue.own_opened device threads
  | some old =>
      have own := requests old (List.mem_of_getElem? before)
      rw [Dispatcher.queue_after permitted before] at found
      cases found
      split
      · rename_i placed
        obtain ⟨same, here, allowed⟩ := Dispatcher.permits_place placed permitted
        cases before.symm.trans here
        refine own.after _ allowed fun request pushed => ?_
        cases event with
        | push _ given =>
            cases placed
            obtain rfl := List.mem_singleton.mp pushed
            exact fits old before
        | _ => cases pushed
      · exact own

theorem Step.regular (step : engine.Step later) (regular : engine.Regular) : later.Regular := by
  cases step with
  | notes keyspace dispatcher =>
      refine ⟨?_, ?_, ?_⟩
      · intro key value held
        rw [keyspace] at held
        refine (regular.values key value held).imp_left fun settles => settles.mono fun device => ?_
        exact (Step.notes keyspace dispatcher).serves
      · rw [dispatcher]
        exact regular.devices
      · rw [dispatcher]
        exact regular.requests
  | @puts key value takes settles =>
      refine ⟨?_, regular.devices, regular.requests⟩
      intro other held found
      rw [Keyspace.get?_set] at found
      split at found
      · rename_i same
        cases found
        exact Or.inl (same ▸ settles)
      · exact regular.values other held found
  | happens event permitted fits =>
      refine ⟨?_, ?_, requests_after regular.requests permitted fits⟩
      · intro key value held
        refine (regular.values key value held).imp_left fun settles => settles.mono fun device => ?_
        exact (Step.happens event permitted fits).serves
      · rw [Dispatcher.devices_after permitted]
        refine List.nodup_append.mpr ⟨regular.devices, ?_, ?_⟩
        · cases event <;> first | exact List.nodup_nil | exact List.nodup_singleton _
        · intro device served other opened
          cases event with
          | openQueue fresh threads =>
              obtain rfl := List.mem_singleton.mp opened
              rintro rfl
              exact fits served
          | _ => cases opened
  | reorders turns calls => exact ⟨regular.values, regular.devices, regular.requests⟩

theorem Moves.regular (moves : engine.Moves later) (regular : engine.Regular) : later.Regular := by
  induction moves with
  | refl => exact regular
  | tail _ step ih => exact step.regular ih

theorem Regular.remove (regular : engine.Regular) (key : String) :
    Regular { engine with keyspace := engine.keyspace.remove key } := by
  refine ⟨fun other value held => ?_, regular.devices, regular.requests⟩
  rw [Keyspace.get?_remove] at held
  split at held
  · cases held
  · exact regular.values other value held

theorem Carries.of_same (same : later.keyspace = engine.keyspace) : engine.Carries later := by
  intro key held found
  rw [← same] at found
  exact ⟨held, found, rfl, fun _ => id⟩

theorem Carries.trans {last : Engine} (first : engine.Carries later) (second : later.Carries last) :
    engine.Carries last := by
  intro key held found
  obtain ⟨middle, foundThen, kind, own⟩ := first key held found
  obtain ⟨value, foundLast, kindToo, ownToo⟩ := second key middle foundThen
  exact ⟨value, foundLast, kindToo.trans kind, fun data foreign => ownToo data (own data foreign)⟩

theorem Step.carries (step : engine.Step later) : engine.Carries later := by
  cases step with
  | notes keyspace dispatcher => exact .of_same keyspace
  | @puts key value takes settles =>
      intro other held found
      rw [Keyspace.get?_set]
      split
      · rename_i same
        subst same
        refine ⟨value, rfl, (takes held found).symm, ?_⟩
        rintro data rfl
        -- Nothing else has the kind of a value of the host, and none of those is put.
        cases value with
        | foreign other => exact settles.elim
        | _ => exact absurd (takes _ found) (by simp [Value.typeName])
      · exact ⟨held, found, rfl, fun _ => id⟩
  | happens event permitted fits => exact .of_same rfl
  | reorders turns calls => exact .of_same rfl

theorem Moves.carries (moves : engine.Moves later) : engine.Carries later := by
  induction moves with
  | refl => exact .of_same rfl
  | tail _ step ih => exact ih.trans step.carries

/-! ### Consistency -/

/-- Where values lie, and which queues there are. -/
structure Consistent (engine : Engine) : Prop where
  /-- A model lies at the key that it was loaded for, and its statistics name that key. -/
  models : ∀ key model, engine.keyspace.get? key = some (.model model) →
    model.LoadedFor key ∧ model.key = key ∧ model.info.key = key
  scripts : ∀ key script, engine.keyspace.get? key = some (.script script) →
    script.LoadedFor key ∧ script.key = key ∧ script.info.key = key
  modelQueues : ∀ key model, engine.keyspace.get? key = some (.model model) →
    ∃ place, engine.queueOf? model.definition.device = some place
  scriptQueues : ∀ key script, engine.keyspace.get? key = some (.script script) →
    ∃ place, engine.queueOf? script.device = some place
  /-- What is found for a device is the one queue that has it. -/
  queues : ∀ device place, engine.queueOf? device = some place ↔
    ∃ queue, engine.dispatcher.queues[place]? = some queue ∧ queue.device = device
  requests : ∀ queue ∈ engine.dispatcher.queues, ∀ request ∈ queue.pending ++ queue.held,
    request.target.device = queue.device

theorem Serves.queueOf? {device : Device} (served : engine.Serves device) :
    ∃ place, engine.queueOf? device = some place := by
  cases found : engine.queueOf? device with
  | none => exact absurd served (queueOf?_eq_none.mp found)
  | some place => exact ⟨place, rfl⟩

theorem Regular.queueOf?_eq_some_iff (regular : engine.Regular) {device : Device} {place : Nat} :
    engine.queueOf? device = some place ↔
      ∃ queue, engine.dispatcher.queues[place]? = some queue ∧ queue.device = device := by
  constructor
  · exact found_of_queueOf?
  · rintro ⟨queue, found, rfl⟩
    have served : engine.Serves queue.device :=
      List.mem_map.mpr ⟨queue, List.mem_of_getElem? found, rfl⟩
    obtain ⟨first, firstFound⟩ := served.queueOf?
    obtain ⟨other, otherFound, same⟩ := found_of_queueOf? firstFound
    have here : engine.dispatcher.devices[place]? = some queue.device := by
      rw [Dispatcher.devices, List.getElem?_map, found, Option.map_some]
    have there : engine.dispatcher.devices[first]? = some queue.device := by
      rw [Dispatcher.devices, List.getElem?_map, otherFound, Option.map_some, same]
    have within := (List.getElem?_eq_some_iff.mp here).1
    rw [firstFound, (List.getElem?_inj within regular.devices).mp (here.trans there.symm)]

theorem Regular.consistent (regular : engine.Regular) : engine.Consistent where
  models := by
    intro key model held
    rcases regular.values key _ held with ⟨loadedFor, _⟩ | ⟨_, foreign⟩
    · obtain ⟨_, _, _, _, _, loaded⟩ := loadedFor
      have own : model.key = key := by
        obtain ⟨_, _, _, _, rfl⟩ := Model.load_eq_ok_iff.mp loaded
        rfl
      exact ⟨⟨_, _, _, _, _, loaded⟩, own, own⟩
    · cases foreign
  scripts := by
    intro key script held
    rcases regular.values key _ held with ⟨loadedFor, _⟩ | ⟨_, foreign⟩
    · obtain ⟨_, _, _, loaded⟩ := loadedFor
      have own : script.key = key := by
        obtain ⟨_, _, _, _, _, _, rfl⟩ := Script.load_eq_ok_iff.mp loaded
        rfl
      exact ⟨⟨_, _, _, loaded⟩, own, own⟩
    · cases foreign
  modelQueues := by
    intro key model held
    rcases regular.values key _ held with ⟨_, served⟩ | ⟨_, foreign⟩
    · exact served.queueOf?
    · cases foreign
  scriptQueues := by
    intro key script held
    rcases regular.values key _ held with ⟨_, served⟩ | ⟨_, foreign⟩
    · exact served.queueOf?
    · cases foreign
  queues := fun _ _ => regular.queueOf?_eq_some_iff
  requests := regular.requests

end Engine

/-! ### Services -/

/-- The host sets, copies or removes a value on its own. -/
def Action.intrudes : Action → Bool
  | .host (.place _ _) | .host (.link _ _) | .host (.remove _) => true
  | _ => false

namespace Service

/-- The host registers backends and restores what was dumped, and does nothing else. -/
def History.Undisturbed (history : History) : Prop :=
  ∀ moment ∈ history, moment.action.intrudes = false

namespace Moment

def Deletes (moment : Moment) (key : String) : Prop :=
  ∃ arguments giveUpAt, moment.action = .command arguments giveUpAt ∧
    moment.before.engine.Deletes arguments key

/-- What becomes of values in one step. -/
structure Respects (moment : Moment) : Prop where
  /-- A key holds a value of the same kind, unless the command deletes what it held. -/
  kinds : ∀ key held, moment.before.engine.keyspace.get? key = some held →
    (∃ value, moment.after.engine.keyspace.get? key = some value ∧
      value.typeName = held.typeName) ∨
    moment.Deletes key ∧ moment.after.engine.keyspace.get? key = none
  foreign : ∀ key data, moment.before.engine.keyspace.get? key = some (.foreign data) →
    moment.after.engine.keyspace.get? key = some (.foreign data)

variable {moment : Moment}

/-- A store goes on in single steps whatever happens, but when a command deletes something. -/
theorem moves_or_deletes (permitted : moment.before.permits moment.action = true)
    (mild : moment.action.intrudes = false) :
    moment.before.engine.Moves moment.after.engine ∨ ∃ key, moment.Deletes key ∧
      moment.after.engine = { moment.before.engine with
        keyspace := moment.before.engine.keyspace.remove key } := by
  obtain ⟨before, action⟩ := moment
  cases action with
  | command arguments giveUpAt =>
      rcases before.engine.goes_begin arguments with moves | ⟨key, deletes, removed⟩
      · exact Or.inl moves
      · exact Or.inr ⟨key, ⟨arguments, giveUpAt, rfl, deletes⟩, removed⟩
  | resume client =>
      obtain ⟨execution, giveUpAt, result, waits, returned⟩ := resumes_of_permitted permitted
      simp only [Moment.after, Service.after, clients_resume waits returned]
      exact Or.inl (Engine.moves_resume before.engine execution result)
  | expire client => exact Or.inl (Engine.moves_refl _)
  | abandon client => exact Or.inl (Engine.moves_refl _)
  | work event =>
      obtain ⟨works, allowed⟩ := Bool.and_eq_true_iff.mp permitted
      have fits : before.engine.Fits event := by
        cases event <;> trivial
      exact Or.inl (Engine.Step.moves (.happens event allowed fits))
  | reorder turns calls => exact Or.inl (Engine.Step.moves (.reorders turns calls))
  | host action =>
      cases action with
      | register backend => exact Or.inl (Engine.Step.moves (.notes rfl rfl))
      | restoreModel key data =>
          exact Or.inl (Engine.moves_puts (Engine.puts_restoreModel _ key data))
      | restoreScript key data =>
          exact Or.inl (Engine.moves_puts (Engine.puts_restoreScript _ key data))
      | restoreTensor key data =>
          exact Or.inl (Engine.moves_puts (Engine.puts_restoreTensor _ key data))
      | place key data => cases mild
      | link key other => cases mild
      | remove key => cases mild

theorem regular_after (permitted : moment.before.permits moment.action = true)
    (mild : moment.action.intrudes = false) (regular : moment.before.engine.Regular) :
    moment.after.engine.Regular := by
  rcases moves_or_deletes permitted mild with moves | ⟨key, _, removed⟩
  · exact Engine.Moves.regular moves regular
  · rw [removed]
    exact regular.remove key

theorem respects (permitted : moment.before.permits moment.action = true)
    (mild : moment.action.intrudes = false) : moment.Respects := by
  rcases moves_or_deletes permitted mild with moves | ⟨deleted, deletes, removed⟩
  · have carried := Engine.Moves.carries moves
    constructor
    · intro key held found
      obtain ⟨value, foundToo, kind, _⟩ := carried key held found
      exact Or.inl ⟨value, foundToo, kind⟩
    · intro key data found
      obtain ⟨value, foundToo, _, same⟩ := carried key _ found
      rw [foundToo, same data rfl]
  · have held (key : String) : moment.after.engine.keyspace.get? key =
        if key = deleted then none else moment.before.engine.keyspace.get? key := by
      rw [removed, Keyspace.get?_remove]
    constructor
    · intro key value found
      rw [held]
      split
      · rename_i same
        exact Or.inr ⟨same ▸ deletes, rfl⟩
      · exact Or.inl ⟨value, found, rfl⟩
    · intro key data found
      have apart : key ≠ deleted := by
        rintro rfl
        obtain ⟨_, _, _, removes⟩ := deletes
        cases removes with
        | model _ _ there => cases found.symm.trans there
        | script _ _ there => cases found.symm.trans there
      rw [held, if_neg apart]
      exact found

end Moment

namespace Run

variable {config : Config} {clustered : Bool} {keyspace : Keyspace} {store : Engine}
  {history : History} {service : Service}

theorem regular (run : Run store history service) (undisturbed : history.Undisturbed)
    (regular : store.Regular) : service.engine.Regular := by
  induction run with
  | start => exact regular
  | @step history service run action permitted ih =>
      obtain ⟨earlier, last⟩ := List.forall_mem_append.mp undisturbed
      let moment : Moment := ⟨service, action⟩
      have allowed : moment.before.permits moment.action = true := permitted
      exact Moment.regular_after allowed (last moment (List.mem_singleton.mpr rfl)) (ih earlier)

theorem respects (run : Run store history service) (undisturbed : history.Undisturbed) :
    ∀ moment ∈ history, moment.Respects := by
  intro moment happened
  obtain ⟨earlier, later, rfl⟩ := List.append_of_mem happened
  exact Moment.respects run.before.2 (undisturbed moment happened)

theorem keeps_foreign (run : Run store history service) (undisturbed : history.Undisturbed)
    {key : String} {data : Bytes} (held : store.keyspace.get? key = some (.foreign data)) :
    service.engine.keyspace.get? key = some (.foreign data) := by
  induction run with
  | start => exact held
  | @step history service run action permitted ih =>
      obtain ⟨earlier, last⟩ := List.forall_mem_append.mp undisturbed
      have respected := (run.step action permitted).respects undisturbed ⟨service, action⟩
        (List.mem_append_right _ (List.mem_singleton.mpr rfl))
      exact respected.foreign key data (ih earlier)

/-- A store that starts with values of the host alone stays consistent, in every run of commands
and restores. No step changes the kind of a value, but one that deletes it, and the values of the
host are there as they were. -/
theorem stays_consistent (foreign : ∀ key value, keyspace.get? key = some value →
      ∃ data, value = .foreign data)
    (run : Run { Engine.create config clustered with keyspace := keyspace } history service)
    (undisturbed : history.Undisturbed) :
    service.engine.Consistent ∧ (∀ moment ∈ history, moment.Respects) ∧
      ∀ key data, keyspace.get? key = some (.foreign data) →
        service.engine.keyspace.get? key = some (.foreign data) := by
  have first : Engine.Regular { Engine.create config clustered with keyspace := keyspace } :=
    ⟨fun key value held => Or.inr (foreign key value held), List.nodup_nil,
      fun _ member => (List.not_mem_nil member).elim⟩
  have regular := run.regular undisturbed first
  exact ⟨regular.consistent, run.respects undisturbed,
    fun key data held => run.keeps_foreign undisturbed held⟩

end Run

namespace Sample

def hosted : Keyspace := Keyspace.empty.set "host" (.foreign [120])

theorem foreign_of_hosted {key : String} {value : Value} (held : hosted.get? key = some value) :
    ∃ data, value = .foreign data := by
  rw [hosted, Keyspace.get?_set] at held
  split at held
  · cases held
    exact ⟨_, rfl⟩
  · cases held

/-- While a model runs, it is deleted, and another is stored at the key of its output. -/
def overtaken : List Action :=
  [ .host (.register (Arithmetic.backend .torch)),
    send ["AI.TENSORSET", "a", "INT8", "1", "VALUES", "1"],
    send ["AI.MODELSTORE", "m", "TORCH", "CPU", "BLOB", "identity"],
    send ["AI.MODELSTORE", "host", "TORCH", "CPU", "BLOB", "identity"],
    send ["AI.MODELEXECUTE", "m", "INPUTS", "1", "a", "OUTPUTS", "1", "late"],
    send ["AI.MODELDEL", "m"],
    send ["AI.MODELSTORE", "late", "TORCH", "CPU", "BLOB", "identity"],
    .work (.look ⟨0, 0⟩),
    .work (.returnCall ⟨0, 0⟩),
    .resume 3 ]

def outlives (history : History) (service : Service) : Bool :=
  (history.all fun moment => !moment.action.intrudes) &&
    (service.engine.keyspace.get? "m").isNone &&
      match service.engine.keyspace.get? "late" with
      | some (.model _) => true
      | _ => false

end Sample

namespace Run

/-- A model that was stored where a running graph is to write stays there. -/
theorem stays_consistent_of_overtaken : ∃ history service model,
    Run { Engine.create .initial false with keyspace := Sample.hosted } history service ∧
      service.engine.keyspace.get? "m" = none ∧
      service.engine.keyspace.get? "late" = some (.model model) ∧ service.engine.Consistent ∧
      (∀ moment ∈ history, moment.Respects) ∧
      service.engine.keyspace.get? "host" = some (.foreign [120]) := by
  obtain ⟨history, service, run, checked⟩ := History.exists_run
    { Engine.create .initial false with keyspace := Sample.hosted } Sample.overtaken
    Sample.outlives (by decide +kernel)
  obtain ⟨⟨mild, gone⟩, stored⟩ := by
    simpa only [Sample.outlives, Bool.and_eq_true, Option.isNone_iff_eq_none] using checked
  have undisturbed : history.Undisturbed := by
    intro moment happened
    exact (Bool.not_eq_true' _).mp (List.all_eq_true.mp mild moment happened)
  have kept := run.stays_consistent (fun _ _ => Sample.foreign_of_hosted) undisturbed
  split at stored
  · rename_i model found
    exact ⟨history, service, model, run, gone, found, kept.1, kept.2.1,
      kept.2.2 "host" [120] ((Keyspace.get?_set ..).trans (if_pos rfl))⟩
  · cases stored

end Run

end Service

end InferenceStore
