import InferenceStore.Proofs.Dag.Dependencies
import InferenceStore.Proofs.Service.Failures
import InferenceStore.Proofs.Service.Submissions

/-
Runs on their own that fail. Such a run is a graph of one operation, which loads its inputs and
persists its outputs, each if it can be, whatever has become of the others. So a failure is no
promise that nothing was written: one output may be put beside another that is refused, and where
the run itself failed a name that is an input too is put back as it was when the run began.
-/

namespace InferenceStore

/-! ### Graphs of one operation -/

namespace Course

variable {loaded final : Context} {deed : Deed} {target : Target}

theorem single_cases (course : Course loaded [deed] final) (runs : deed.op.target? = some target)
    (inputs : ∀ name ∈ deed.op.inputs, (loaded.get? name).isSome = true) :
    (∃ cause, deed.result? = some (.error cause) ∧ deed.reply = .error cause ∧ final = loaded) ∨
      (∃ tensors, deed.result? = some (.ok tensors) ∧ deed.reply = .okay ∧
        final = loaded.insertAll deed.op.outputs tensors) := by
  cases course with
  | done step rest =>
      rcases Op.done_cases step with ⟨_, _, name, member, unbound⟩ | ⟨_, _, quiet, _⟩
      · have bound := inputs name member
        rw [unbound] at bound
        cases bound
      · rw [runs] at quiet
        cases quiet
  | returned step rest =>
      cases rest
      obtain ⟨_, _, rfl⟩ := Op.step_eq_request.mp step
      exact Or.inr ⟨_, rfl, rfl, rfl⟩
  | failed step inTime rest =>
      cases rest
      exact Or.inl ⟨_, rfl, rfl, rfl⟩

end Course

namespace Dag

theorem mem_load_single {op : Op} {name : String} : name ∈ (single op).load ↔ name ∈ op.inputs :=
  mem_firstOccurrences

theorem mem_persist_single {op : Op} {name : String} :
    name ∈ (single op).persist ↔ name ∈ op.outputs := mem_firstOccurrences

theorem reply_single_of_error (op : Op) (cause : Error) (failures : List Error) :
    (single op).reply [.error cause] failures = .error cause := rfl

theorem reply_single_of_okay (op : Op) (failures : List Error) :
    (single op).reply [.okay] failures = (failures.head?.map Reply.error).getD .okay := by
  cases failures <;> rfl

def standaloneNames : List String :=
  ["AI.MODELEXECUTE", "AI.MODELRUN", "AI.SCRIPTEXECUTE", "AI.SCRIPTRUN"]

namespace Commanded

variable {keyspace : Keyspace} {arguments : List Bytes} {dag : Dag}

theorem exists_single (commanded : Commanded keyspace arguments none dag) :
    ∃ op target, dag = .single op ∧ op.target? = some target := by
  cases commanded with
  | modelExecute _ _ => exact ⟨_, _, rfl, rfl⟩
  | modelRun _ _ => exact ⟨_, _, rfl, rfl⟩
  | scriptExecute _ _ => exact ⟨_, _, rfl, rfl⟩
  | scriptRun _ _ => exact ⟨_, _, rfl, rfl⟩

end Commanded

theorem begins_unread {engine : Engine} {arguments : List Bytes}
    (named : Command.name arguments ∈ standaloneNames)
    (unread : ∀ dag, ¬ Commanded engine.keyspace arguments none dag) :
    ∃ cause, engine.begin arguments = (engine, .finished (.error cause)) := by
  simp only [standaloneNames, List.mem_cons, List.not_mem_nil, or_false] at named
  rcases named with named | named | named | named
  · cases read : Command.ModelRun.ofExecute engine.keyspace arguments with
    | ok run => exact absurd (.modelExecute named read) (unread _)
    | error cause =>
        exact ⟨cause, by simp only [Engine.begin, named, read, Except.map, Engine.startParsed]⟩
  · cases read : Command.ModelRun.ofRun engine.keyspace arguments with
    | ok run => exact absurd (.modelRun named read) (unread _)
    | error cause =>
        exact ⟨cause, by simp only [Engine.begin, named, read, Except.map, Engine.startParsed]⟩
  · cases read : Command.ScriptRun.ofExecute engine.keyspace arguments with
    | ok run => exact absurd (.scriptExecute named read) (unread _)
    | error cause =>
        exact ⟨cause, by simp only [Engine.begin, named, read, Except.map, Engine.startParsed]⟩
  · cases read : Command.ScriptRun.ofRun engine.keyspace arguments with
    | ok run => exact absurd (.scriptRun named read) (unread _)
    | error cause =>
        exact ⟨cause, by simp only [Engine.begin, named, read, Except.map, Engine.startParsed]⟩

end Dag

namespace Service

/-- A client has run a model or a script on its own and got a failure for it. -/
structure FailsAlone (history : History) (service : Service) (client : Nat) (begun : Moment)
    (arguments : List Bytes) (reply : Reply) : Prop where
  happened : begun ∈ history
  sender : begun.before.clients.length = client
  sent : ∃ giveUpAt, begun.action = .command arguments giveUpAt
  named : Command.name arguments ∈ Dag.standaloneNames
  found : service.clients[client]? = some (.answered reply)
  failed : reply.isError = true ∨ reply = .timedOut

/-- The operation ran, and the client's last moment is the only one that writes. -/
structure RanAlone (history : History) (client : Nat) (begun : Moment) (arguments : List Bytes)
    (op : Op) (last : Moment) : Prop where
  read : Dag.Commanded begun.before.engine.keyspace arguments none (.single op)
  accepted : begun.before.engine.refusal? (.single op) = none
  front : ∃ front, history.of client = front ++ [last] ∧ ∀ moment ∈ front, moment.IsSilent

/-- What a failure leaves behind. -/
inductive Remains (history : History) (client : Nat) (begun : Moment) (arguments : List Bytes) :
    Reply → Prop
  | notRun {cause : Error}
      (why : (∀ dag, ¬ Dag.Commanded begun.before.engine.keyspace arguments none dag) ∨
        ∃ dag, Dag.Commanded begun.before.engine.keyspace arguments none dag ∧
          begun.before.engine.refusal? dag = some cause)
      (only : history.of client = [begun])
      (unchanged : begun.after.engine = begun.before.engine) :
      Remains history client begun arguments (.error cause)
  | timedOut (silent : ∀ moment ∈ history.of client, moment.IsSilent) :
      Remains history client begun arguments .timedOut
  /-- Names that are inputs too are put back as they were loaded. -/
  | runFailed {op : Op} {last : Moment} {cause : Error}
      (ran : RanAlone history client begun arguments op last)
      (delivered : history.delivered client = [.error cause])
      (back : ∀ key ∈ op.outputs, key ∈ op.inputs →
        last.before.engine.keyspace.admitsTensor key = true →
          ∃ tensor, begun.before.engine.keyspace.getTensor key = .ok tensor ∧
            last.after.engine.keyspace.get? key = some (.tensor tensor))
      (kept : ∀ key, (key ∈ op.outputs → key ∈ op.inputs →
        last.before.engine.keyspace.admitsTensor key = false) →
          last.after.engine.keyspace.get? key = last.before.engine.keyspace.get? key) :
      Remains history client begun arguments (.error cause)
  /-- The outputs are put, but for those whose keys hold something else. -/
  | keyRefused {op : Op} {last : Moment} {tensors : List Tensor}
      (ran : RanAlone history client begun arguments op last)
      (delivered : history.delivered client = [.ok tensors])
      (enough : tensors.length = op.outputs.length)
      (refused : ∃ key ∈ op.outputs, last.before.engine.keyspace.admitsTensor key = false)
      (written : ∀ key ∈ op.outputs, last.before.engine.keyspace.admitsTensor key = true →
        ∃ tensor, (Context.empty.insertAll op.outputs tensors).get? key = some tensor ∧
          last.after.engine.keyspace.get? key = some (.tensor tensor))
      (kept : ∀ key, (key ∈ op.outputs → last.before.engine.keyspace.admitsTensor key = false) →
        last.after.engine.keyspace.get? key = last.before.engine.keyspace.get? key) :
      Remains history client begun arguments (.error .wrongType)

variable {config : Config} {clustered : Bool} {history : History} {service : Service}
  {client : Nat} {begun last : Moment} {arguments : List Bytes} {op : Op} {loaded final : Context}
  {deeds : List Deed} {failures : List Error} {reply : Reply}

namespace RanAlone

theorem remains_of_failed_run (ran : RanAlone history client begun arguments op last)
    (loading : loadContext begun.before.engine.keyspace .empty (Dag.single op).load = .ok loaded)
    (persisted : Persisted loaded (Dag.single op).persist last.before.engine.keyspace
      last.after.engine.keyspace failures) {cause : Error}
    (delivered : history.delivered client = [.error cause]) :
    Remains history client begun arguments (.error cause) := by
  refine .runFailed ran delivered ?_ ?_
  · intro key inOutputs inInputs admits
    obtain ⟨tensor, held⟩ := Option.isSome_iff_exists.mp
      ((isSome_loaded_iff loading).mpr (Dag.mem_load_single.mpr inInputs))
    exact ⟨tensor, getTensor_of_loaded loading held,
      persisted.written key (Dag.mem_persist_single.mpr inOutputs) tensor held admits⟩
  · intro key apart
    by_cases inOutputs : key ∈ op.outputs
    · by_cases inInputs : key ∈ op.inputs
      · exact persisted.refused key (apart inOutputs inInputs)
      · apply persisted.unbound
        apply Option.not_isSome_iff_eq_none.mp
        exact fun bound => inInputs (Dag.mem_load_single.mp ((isSome_loaded_iff loading).mp bound))
    · exact persisted.elsewhere key (mt Dag.mem_persist_single.mp inOutputs)

theorem remains_of_refused_key (ran : RanAlone history client begun arguments op last)
    {tensors : List Tensor} (enough : tensors.length = op.outputs.length)
    (persisted : Persisted (loaded.insertAll op.outputs tensors) (Dag.single op).persist
      last.before.engine.keyspace last.after.engine.keyspace failures)
    (delivered : history.delivered client = [.ok tensors]) {cause : Error}
    (failure : cause ∈ failures) : Remains history client begun arguments (.error cause) := by
  have bound {key : String} (inOutputs : key ∈ op.outputs) :=
    Context.insertAll_binds loaded enough inOutputs
  rw [persisted.failures] at failure
  obtain ⟨name, named, fault⟩ := List.mem_filterMap.mp failure
  have inOutputs := Dag.mem_persist_single.mp named
  obtain ⟨refused, rfl⟩ := Context.refused_of_fault (bound inOutputs) fault
  refine .keyRefused ran delivered enough ⟨name, inOutputs, refused⟩ ?_ ?_
  · intro key inOutputs admits
    obtain ⟨tensor, held⟩ := Option.isSome_iff_exists.mp (bound inOutputs)
    refine ⟨tensor, ?_,
      persisted.written key (Dag.mem_persist_single.mpr inOutputs) tensor held admits⟩
    rw [← held]
    exact Context.insertAll_congr enough (Or.inl inOutputs)
  · intro key apart
    by_cases inOutputs : key ∈ op.outputs
    · exact persisted.refused key (apart inOutputs)
    · exact persisted.elsewhere key (mt Dag.mem_persist_single.mp inOutputs)

theorem remains (ran : RanAlone history client begun arguments op last)
    (loading : loadContext begun.before.engine.keyspace .empty (Dag.single op).load = .ok loaded)
    (concluded : Concluded (.single op) loaded client (history.of client) deeds final last failures
      reply)
    (filled : ∀ deed ∈ deeds, deed.Filled) (failed : reply.isError = true) :
    Remains history client begun arguments reply := by
  obtain ⟨_, target, same, runs⟩ := ran.read.exists_single
  cases List.singleton_inj.mp (congrArg Dag.ops same)
  obtain ⟨deed, rfl, rfl⟩ := List.map_eq_singleton_iff.mp concluded.ops.symm
  have inputs : ∀ name ∈ deed.op.inputs, (loaded.get? name).isSome = true :=
    fun name member => (isSome_loaded_iff loading).mpr (Dag.mem_load_single.mpr member)
  have delivered : history.delivered client = [deed].filterMap Deed.result? :=
    concluded.told.delivered
  have replied : reply = (Dag.single deed.op).reply [deed.reply] failures := concluded.reply
  have persisted := concluded.persisted
  rcases concluded.course.single_cases runs inputs with
    ⟨cause, result, own, rfl⟩ | ⟨tensors, result, own, rfl⟩
  · rw [own, Dag.reply_single_of_error] at replied
    rw [replied]
    exact ran.remains_of_failed_run loading persisted (by simpa [result] using delivered)
  · obtain ⟨call, called, same⟩ := Option.map_eq_some_iff.mp result
    have enough : tensors.length = deed.op.outputs.length :=
      filled deed (List.mem_singleton.mpr rfl) call tensors called same
    rw [own, Dag.reply_single_of_okay] at replied
    cases failures with
    | nil =>
        rw [replied] at failed
        cases failed
    | cons cause rest =>
        rw [replied]
        exact ran.remains_of_refused_key enough persisted (by simpa [result] using delivered)
          (List.mem_cons_self ..)

end RanAlone

/-- What a model or a script that fails on its own leaves behind, in every run. -/
theorem Run.remains_of_failure (run : Run (.create config clustered) history service)
    (fails : FailsAlone history service client begun arguments reply) :
    Remains history client begun arguments reply := by
  obtain ⟨giveUpAt, sent⟩ := fails.sent
  by_cases read : ∃ dag, Dag.Commanded begun.before.engine.keyspace arguments none dag
  case neg =>
    have unread := not_exists.mp read
    obtain ⟨cause, finished⟩ := Dag.begins_unread fails.named unread
    obtain ⟨only, same, unchanged⟩ := run.answered_at_once fails.found
      (run.head_of fails.happened fails.sender sent) sent finished
    cases same
    exact .notRun (Or.inl unread) only unchanged
  case pos =>
    obtain ⟨dag, commanded⟩ := read
    have sends : Sends history client begun none dag :=
      ⟨fails.happened, fails.sender, arguments, giveUpAt, sent, commanded⟩
    cases refusal : begun.before.engine.refusal? dag with
    | some cause =>
        obtain ⟨only, same, unchanged⟩ := run.refused fails.found sends refusal
        cases same
        exact .notRun (Or.inr ⟨dag, commanded, refusal⟩) only unchanged
    | none =>
        by_cases late : reply = .timedOut
        · rw [late]
          apply Remains.timedOut
          apply run.silent_of_unanswered fails.found sends
          rintro other ⟨rfl⟩
          exact late
        · obtain ⟨op, _, rfl, _⟩ := commanded.exists_single
          obtain ⟨loaded, deeds, final, last, failures, loading, concluded, _⟩ :=
            run.concluded fails.found sends refusal late
          have ran : RanAlone history client begun arguments op last :=
            ⟨commanded, refusal, concluded.front⟩
          exact ran.remains loading concluded (run.filled concluded.told)
            (fails.failed.resolve_right late)

/-! ### Failures that leave something behind -/

def Moment.sends (moment : Moment) (client : Nat) (arguments : List Bytes) : Bool :=
  moment.before.clients.length == client &&
    match moment.action with
    | .command sent _ => decide (sent = arguments)
    | _ => false

def Moment.replaces (moment : Moment) (key : String) : Bool :=
  decide (moment.after.engine.keyspace.getTensor key ≠ moment.before.engine.keyspace.getTensor key)

theorem Moment.not_silent_of_replaces {moment : Moment} {key : String}
    (replaces : moment.replaces key = true) : ¬ moment.IsSilent := by
  intro silent
  apply of_decide_eq_true replaces
  rw [silent]

def Sample.isError : Session → Bool
  | .answered (.error _) => true
  | _ => false

def Sample.failsAlone (words : List String) (key : String) (history : History)
    (service : Service) : Bool :=
  history.any (·.sends next (words.map Text.encode)) &&
    decide (Command.name (words.map Text.encode) ∈ Dag.standaloneNames) &&
    (service.clients[next]?).any isError &&
    (history.of next).any (·.replaces key)

theorem Sample.exists_failsAlone {words : List String} {key : String}
    (checked : failsAlone words key history service = true) :
    ∃ begun cause,
      FailsAlone history service next begun (words.map Text.encode) (.error cause) ∧
        ¬ ∀ moment ∈ history.of next, moment.IsSilent := by
  simp only [failsAlone, Bool.and_eq_true, List.any_eq_true, decide_eq_true_eq] at checked
  obtain ⟨⟨⟨⟨begun, happened, sends⟩, named⟩, answered⟩, moment, member, replaces⟩ := checked
  obtain ⟨sender, sent⟩ := Bool.and_eq_true_iff.mp sends
  obtain ⟨session, found, shape⟩ := (Option.any_eq_true ..).mp answered
  unfold isError at shape
  split at shape
  · rename_i cause
    refine ⟨begun, cause, ⟨happened, eq_of_beq sender, ?_, named, found, Or.inl rfl⟩, ?_⟩
    · split at sent
      · rename_i arguments giveUpAt action
        rw [of_decide_eq_true sent] at action
        exact ⟨giveUpAt, action⟩
      · cases sent
    · exact fun silent => Moment.not_silent_of_replaces replaces (silent moment member)
  · cases shape

/-- One of two outputs is put, and the reply is a failure for the other. -/
theorem puts_beside_refused_key : ∃ history service begun cause,
    Run (.create .initial false) history service ∧
      FailsAlone history service Sample.next begun
        (["AI.MODELEXECUTE", "pair", "INPUTS", "2", "a", "b", "OUTPUTS", "2", "out", "host"].map
          Text.encode) (.error cause) ∧
      ¬ ∀ moment ∈ history.of Sample.next, moment.IsSilent := by
  let words := ["AI.MODELEXECUTE", "pair", "INPUTS", "2", "a", "b", "OUTPUTS", "2", "out", "host"]
  obtain ⟨history, service, run, checked⟩ := History.exists_run (.create .initial false)
    (Sample.opening ++ Sample.send words :: Sample.turn) (Sample.failsAlone words "out")
    (by decide +kernel)
  obtain ⟨begun, cause, fails, traces⟩ := Sample.exists_failsAlone checked
  exact ⟨history, service, begun, cause, run, fails, traces⟩

/-- A model that reads and writes one key fails, and what others put there is lost. -/
theorem puts_back_what_was_loaded : ∃ history service begun cause,
    Run (.create .initial false) history service ∧
      FailsAlone history service Sample.next begun
        (["AI.MODELEXECUTE", "broken", "INPUTS", "1", "a", "OUTPUTS", "1", "a"].map Text.encode)
        (.error cause) ∧
      (¬ ∀ moment ∈ history.of Sample.next, moment.IsSilent) ∧
      Remains history Sample.next begun
        (["AI.MODELEXECUTE", "broken", "INPUTS", "1", "a", "OUTPUTS", "1", "a"].map Text.encode)
        (.error cause) := by
  let words := ["AI.MODELEXECUTE", "broken", "INPUTS", "1", "a", "OUTPUTS", "1", "a"]
  obtain ⟨history, service, run, checked⟩ := History.exists_run (.create .initial false)
    (Sample.opening ++ Sample.send words ::
      Sample.send ["AI.TENSORSET", "a", "INT8", "1", "VALUES", "9"] :: Sample.turn)
    (Sample.failsAlone words "a") (by decide +kernel)
  obtain ⟨begun, cause, fails, traces⟩ := Sample.exists_failsAlone checked
  exact ⟨history, service, begun, cause, run, fails, traces, run.remains_of_failure fails⟩

end Service

end InferenceStore
