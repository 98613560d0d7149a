import InferenceStore.Proofs.Backend.InTime
import InferenceStore.Proofs.Dag.Determinism
import InferenceStore.Proofs.Dag.Start
import InferenceStore.Proofs.Service.Served

/-
A client whose command runs a graph while nothing else goes on. Its requests are alone with the
workers, so each of its operations gets what its own run gives, if it gets anything; and only these
runs are entered into the books. Where workers and the clock take which step does not show in what
the client has got when it has got something.
-/

namespace InferenceStore

/-! ### Runs of their own -/

namespace Deed

/-- What the operation had run was served alone, and gave it the result of its own run. -/
def RanAlone (deed : Deed) : Prop :=
  ∀ call, deed.call = some call →
    call.target.policy.servesOne (Tensor.sharedBatchSize call.inputs) = true ∧
      call.result = call.target.invoke call.inputs deed.op.outputs.length

theorem RanAlone.of_quiet {deed : Deed} (quiet : deed.call = none) : deed.RanAlone := by
  intro call called
  rw [quiet] at called
  cases called

end Deed

def Op.InTime (op : Op) : Prop :=
  ∀ target, op.target? = some target → ∀ inputs, (target.invoke inputs op.outputs.length).InTime

/-- However many samples it has, a run of the operation is served alone. -/
def Op.IsServed (op : Op) : Prop :=
  ∀ target, op.target? = some target → ∀ samples, target.policy.servesOne samples = true

namespace Course

variable {context middle middle' final final' : Context} {deed other : Deed}
  {deeds deeds' : List Deed} {rest rest' : List Op}

theorem exists_ranAlone {ops : List Op} (inTime : ∀ op ∈ ops, op.InTime)
    (served : ∀ op ∈ ops, op.IsServed) (context : Context) :
    ∃ deeds final, Course context deeds final ∧ (∀ deed ∈ deeds, deed.RanAlone) ∧
      ops = deeds.map Deed.op := by
  induction ops generalizing context with
  | nil => exact ⟨[], context, .nil context, List.forall_mem_nil _, rfl⟩
  | cons op rest ih =>
      obtain ⟨hereInTime, othersInTime⟩ := List.forall_mem_cons.mp inTime
      obtain ⟨hereServed, othersServed⟩ := List.forall_mem_cons.mp served
      have goesOn := ih othersInTime othersServed
      cases step : op.step context with
      | done bound reply =>
          obtain ⟨deeds, final, course, alone, told⟩ := goesOn bound
          exact ⟨_, final, .done step course, List.forall_mem_cons.mpr ⟨.of_quiet rfl, alone⟩,
            congrArg (op :: ·) told⟩
      | request target inputs outputs =>
          obtain ⟨runs, _, _⟩ := Op.step_eq_request.mp step
          have own (reply : Reply) : Deed.RanAlone ⟨op, context,
              some ⟨target, inputs, target.invoke inputs op.outputs.length⟩, reply⟩ := by
            intro call called
            cases called
            exact ⟨hereServed target runs _, rfl⟩
          have waited := hereInTime target runs inputs
          cases result : target.invoke inputs op.outputs.length with
          | ok tensors =>
              obtain ⟨deeds, final, course, alone, told⟩ :=
                goesOn (context.insertAll outputs tensors)
              exact ⟨_, final, .returned step course,
                List.forall_mem_cons.mpr ⟨result ▸ own _, alone⟩, congrArg (op :: ·) told⟩
          | error cause =>
              obtain ⟨deeds, final, course, alone, told⟩ := goesOn context
              refine ⟨_, final, .failed step ?_ course,
                List.forall_mem_cons.mpr ⟨result ▸ own _, alone⟩, congrArg (op :: ·) told⟩
              rintro rfl
              exact waited result

theorem result_unique (one : Course context [deed] middle) (same : Course context [other] middle')
    (op : deed.op = other.op) (alone : deed.RanAlone) (aloneToo : other.RanAlone)
    (a b : Outcome (List Tensor)) (left : deed.result? = some a) (right : other.result? = some b) :
    a = b := by
  obtain ⟨call, called, rfl⟩ := Option.map_eq_some_iff.mp left
  obtain ⟨call', called', rfl⟩ := Option.map_eq_some_iff.mp right
  have asked : deed.asked? = other.asked? := by rw [asked?_eq one, asked?_eq same, op]
  rw [Deed.asked?, Deed.asked?, called, called', Option.map_some, Option.map_some] at asked
  injection asked with asked
  injection asked with target inputs
  injection inputs with inputs _
  rw [(alone call called).2, (aloneToo call' called').2, target, inputs, op]

theorem agree_of_ranAlone (first : Course context deeds final)
    (second : Course context deeds' final')
    (ops : deeds.map Deed.op ++ rest = deeds'.map Deed.op ++ rest')
    (alone : ∀ deed ∈ deeds, deed.RanAlone) (aloneToo : ∀ deed ∈ deeds', deed.RanAlone) :
    Agree (deeds.filterMap Deed.result?) (deeds'.filterMap Deed.result?) := by
  induction deeds generalizing context deeds' with
  | nil => exact fun place a b left => by cases left
  | cons deed behind ih =>
      cases deeds' with
      | nil => exact fun place a b _ right => by cases right
      | cons other behind' =>
          obtain ⟨_, next, one, onward⟩ := uncons first
          obtain ⟨_, next', same, onward'⟩ := uncons second
          obtain ⟨op, opsBehind⟩ := List.cons_eq_cons.mp ops
          obtain ⟨here, others⟩ := List.forall_mem_cons.mp alone
          obtain ⟨hereToo, othersToo⟩ := List.forall_mem_cons.mp aloneToo
          obtain ⟨rfl, rfl⟩ := unique_one one same op (result_unique one same op here hereToo)
          have agree := ih onward onward' opsBehind others othersToo
          cases result : deed.result? with
          | none => rwa [List.filterMap_cons_none result, List.filterMap_cons_none result]
          | some given =>
              rw [List.filterMap_cons_some result, List.filterMap_cons_some result]
              intro place a b left right
              cases place with
              | zero => exact Option.some.inj (left.symm.trans right)
              | succ place => exact agree place a b left right

end Course

/-! ### Books -/

namespace Call

def isOf (id : InstanceId) (call : Call) : Bool := call.target.instanceId == id

def enter (counters : Counters) (call : Call) : Counters :=
  match call.result with
  | .ok outputs => counters.countSuccess 0 (call.target.samples outputs)
  | .error _ => counters.countError

instance : RightCommutative enter where
  right_comm counters first second := by
    unfold enter
    cases first.result <;> cases second.result <;>
      simp only [Counters.countSuccess, Counters.countError, wrapWord, Nat.mod_add_mod,
        Nat.add_right_comm]

end Call

namespace Ledger

def book (ledger : Ledger) (calls : List Call) : Ledger :=
  calls.foldl (fun books call => call.target.record books 0 call.result) ledger

theorem counters_book (ledger : Ledger) (calls : List Call) (id : InstanceId) :
    (ledger.book calls).counters id =
      (calls.filter (Call.isOf id)).foldl Call.enter (ledger.counters id) := by
  induction calls generalizing ledger with
  | nil => rfl
  | cons call rest ih =>
      have entered : (call.target.record ledger 0 call.result).counters id =
          if id = call.target.instanceId then call.enter (ledger.counters id)
          else ledger.counters id := by
        unfold Target.record
        rw [Ledger.counters_set]
        split
        · rename_i own
          rw [own]
          rfl
        · rfl
      rw [book, List.foldl_cons, ← book, ih, entered, List.filter_cons]
      by_cases own : call.target.instanceId = id
      · have counted : call.isOf id = true := beq_iff_eq.mpr own
        rw [if_pos own.symm, if_pos counted, List.foldl_cons]
      · have passed : ¬ call.isOf id = true := fun counted => own (beq_iff_eq.mp counted)
        rw [if_neg (Ne.symm own), if_neg passed]

theorem counters_book_perm {calls others : List Call} (same : calls.Perm others) (ledger : Ledger)
    (id : InstanceId) : (ledger.book calls).counters id = (ledger.book others).counters id := by
  rw [counters_book, counters_book]
  exact (same.filter _).foldl_eq _

theorem book_append (ledger : Ledger) (calls more : List Call) :
    ledger.book (calls ++ more) = (ledger.book calls).book more := List.foldl_append ..

end Ledger

/-! ### Stages -/

/-- What happens while nothing goes on but one client, which waits as long as it takes, and the
workers. -/
def Action.isAlone (client : Nat) : Action → Bool
  | .work _ | .reorder _ _ => true
  | .resume acting | .expire acting => acting == client
  | _ => false

namespace Service

inductive Alone (client : Nat) (begun : Service) : Service → Prop
  | refl : Alone client begun begun
  | step {service : Service} (alone : Alone client begun service) (action : Action)
      (own : action.isAlone client = true) (permitted : service.permits action = true) :
      Alone client begun (service.after action)

/-- Its graph has come to this operation, which has asked for a run. -/
structure Reached (origin : Engine) (dag : Dag) (loaded : Context) (client : Nat)
    (deeds : List Deed) (bound : Context) (op : Op) (rest : List Op) (request : Request)
    (service : Service) : Prop where
  course : Course loaded deeds bound
  alone : ∀ deed ∈ deeds, deed.RanAlone
  ops : dag.ops = deeds.map Deed.op ++ op :: rest
  step : op.step bound = .request request.target request.inputs op.outputs
  outputs : request.outputCount = op.outputs.length
  patient : request.deadline = none
  session : ∃ giveUpAt, service.clients[client]? = some
    (.waiting ⟨dag, none, bound, deeds.map Deed.reply, request.id, op.outputs, rest⟩ giveUpAt)
  keyspace : service.engine.keyspace = origin.keyspace

structure Ended (origin : Engine) (dag : Dag) (loaded : Context) (client : Nat)
    (deeds : List Deed) (final : Context) (service : Service) : Prop where
  course : Course loaded deeds final
  alone : ∀ deed ∈ deeds, deed.RanAlone
  ops : dag.ops = deeds.map Deed.op
  session : service.clients[client]? = some (.answered (dag.reply (deeds.map Deed.reply)
    (persist final origin.keyspace dag.persist).2))
  keyspace : service.engine.keyspace = (persist final origin.keyspace dag.persist).1
  idle : service.engine.dispatcher.Idle
  books : service.engine.dispatcher.ledger =
    origin.dispatcher.ledger.book (deeds.filterMap Deed.call)

/-- How far a client has come alone whose graph was begun on this store. -/
inductive Stage (origin : Engine) (dag : Dag) (loaded : Context) (client : Nat)
    (service : Service) : Prop
  | waits {deeds : List Deed} {bound : Context} {op : Op} {rest : List Op} {request : Request}
      {place : Nat}
      (reached : Reached origin dag loaded client deeds bound op rest request service)
      (attends : service.engine.dispatcher.Attends place request)
      (unknown : service.engine.dispatcher.result? request.id = none)
      (books : service.engine.dispatcher.ledger =
        origin.dispatcher.ledger.book (deeds.filterMap Deed.call))
  | served {deeds : List Deed} {bound : Context} {op : Op} {rest : List Op} {request : Request}
      (reached : Reached origin dag loaded client deeds bound op rest request service)
      (idle : service.engine.dispatcher.Idle) (alone : request.isServedAlone = true)
      (result : service.engine.dispatcher.result? request.id = some request.ownResult)
      (books : service.engine.dispatcher.ledger =
        request.target.record (origin.dispatcher.ledger.book (deeds.filterMap Deed.call)) 0
          request.ownResult)
  | ended {deeds : List Deed} {final : Context}
      (ended : Ended origin dag loaded client deeds final service)

variable {origin engine : Engine} {dag : Dag} {loaded context bound final : Context}
  {client giveUpAt : Nat} {deeds more : List Deed} {op : Op} {ops rest : List Op}
  {request : Request} {service : Service} {outcome : Engine × Progress} {records : Records}

/-- A part of the graph that runs on idle workers leaves a request alone with them, or ends. -/
theorem Stage.of_turn (sound : engine.Sound records) (idle : engine.dispatcher.Idle)
    (keyspace : engine.keyspace = origin.keyspace) (course : Course loaded deeds context)
    (alone : ∀ deed ∈ deeds ++ more, deed.RanAlone) (opsLeft : dag.ops = deeds.map Deed.op ++ ops)
    (books : engine.dispatcher.ledger =
      origin.dispatcher.ledger.book ((deeds ++ more).filterMap Deed.call))
    (turn : engine.Turn dag none context (deeds.map Deed.reply) ops more final outcome)
    (leaves : service.engine = outcome.1)
    (session : service.clients[client]? = some (.ofProgress giveUpAt outcome.2)) :
    Stage origin dag loaded client service := by
  cases turn with
  | ended onward told =>
      rw [Engine.conclude, keyspace, ← List.map_append] at leaves session
      exact .ended
        { course := course.append onward
          alone := alone
          ops := by rw [opsLeft, told, List.map_append]
          session := session
          keyspace := by rw [leaves]
          idle := by rwa [leaves]
          books := by rwa [leaves] }
  | @asks op rest target inputs onward told step =>
      obtain ⟨place, request, number, rfl, rfl, outputs, patient, attends, quiet⟩ :=
        Engine.attends_submit sound.isOpen idle target inputs op.outputs.length none
      let submitted := engine.submit request.target request.inputs op.outputs.length none
      have left : service.engine = submitted.1 := leaves
      have waits : service.clients[client]? = some (.waiting ⟨dag, none, final,
          (deeds ++ more).map Deed.reply, request.id, op.outputs, rest⟩ giveUpAt) := by
        rw [List.map_append, number]
        exact session
      have next : request.id = engine.dispatcher.nextRequest :=
        number.trans (Engine.nextRequest_ensureQueue ..)
      have attended : service.engine.dispatcher.Attends place request := by rwa [left]
      refine .waits
        { course := course.append onward
          alone := alone
          ops := by rw [opsLeft, told, List.map_append, List.append_assoc]
          step := step
          outputs := outputs
          patient := patient
          session := ⟨giveUpAt, waits⟩
          keyspace := ?_ } attended ?_ ?_
      · rw [left, ← keyspace]
        exact Engine.keyspace_ensureQueue ..
      · rw [left, quiet.result?, next]
        exact sound.result?_next
      · rw [left, quiet.2, books]

theorem Reached.onDispatcher
    (reached : Reached origin dag loaded client deeds bound op rest request service)
    (change : Dispatcher → Dispatcher) :
    Reached origin dag loaded client deeds bound op rest request (service.onDispatcher change) :=
  { reached with }

theorem Ended.onDispatcher (ended : Ended origin dag loaded client deeds final service)
    {change : Dispatcher → Dispatcher} (idle : (change service.engine.dispatcher).Idle)
    (quiet : service.engine.dispatcher.Quiet (change service.engine.dispatcher)) :
    Ended origin dag loaded client deeds final (service.onDispatcher change) :=
  { ended with idle := idle, books := quiet.2.trans ended.books }

theorem Stage.of_served
    (reached : Reached origin dag loaded client deeds bound op rest request service)
    (books : service.engine.dispatcher.ledger =
      origin.dispatcher.ledger.book (deeds.filterMap Deed.call))
    (alone : request.isServedAlone = true) {change : Dispatcher → Dispatcher}
    (serves : service.engine.dispatcher.Serves request (change service.engine.dispatcher)) :
    Stage origin dag loaded client (service.onDispatcher change) := by
  refine .served (reached.onDispatcher change) serves.idle alone serves.result? ?_
  exact serves.ledger.trans (by rw [books])

theorem Stage.work (stage : Stage origin dag loaded client service) {event : Event}
    (isWork : event.isWork = true)
    (permitted : service.engine.dispatcher.permits event = true) :
    Stage origin dag loaded client (service.onDispatcher (·.after event)) := by
  cases stage with
  | waits reached attends unknown books =>
      rcases attends.after reached.patient isWork permitted with
        ⟨stays, quiet⟩ | ⟨alone, serves⟩
      · exact .waits (reached.onDispatcher _) stays ((quiet.result? _).trans unknown)
          (quiet.2.trans books)
      · exact .of_served reached books alone serves
  | served reached idle alone result books =>
      obtain ⟨stays, quiet⟩ := idle.after isWork permitted
      exact .served (reached.onDispatcher _) stays alone ((quiet.result? _).trans result)
        (quiet.2.trans books)
  | ended ended =>
      obtain ⟨stays, quiet⟩ := ended.idle.after isWork permitted
      exact .ended (ended.onDispatcher stays quiet)

theorem Stage.resume (stage : Stage origin dag loaded client service)
    (inTime : ∀ op ∈ dag.ops, op.InTime) (sound : service.engine.Sound records)
    (permitted : service.permits (.resume client) = true) :
    Stage origin dag loaded client (service.resume client) := by
  obtain ⟨execution, giveUpAt, result, waits, returned⟩ := resumes_of_permitted permitted
  cases stage with
  | waits reached attends unknown books =>
      obtain ⟨_, session⟩ := reached.session
      cases session.symm.trans waits
      cases unknown.symm.trans returned
  | ended ended => cases ended.session.symm.trans waits
  | @served deeds bound op rest request reached idle alone own books =>
      obtain ⟨_, session⟩ := reached.session
      cases session.symm.trans waits
      cases own.symm.trans returned
      obtain ⟨runs, _, _⟩ := Op.step_eq_request.mp reached.step
      have member : op ∈ dag.ops := by
        rw [reached.ops]
        exact List.mem_append_right _ (List.mem_cons_self ..)
      have waited : request.ownResult.InTime := by
        rw [Request.ownResult, reached.outputs]
        exact inTime op member _ runs request.inputs
      obtain ⟨deed, more, final, rfl, called, quiet, turn⟩ :=
        service.engine.resume_turn
          ⟨dag, none, bound, deeds.map Deed.reply, request.id, op.outputs, rest⟩ reached.step
          waited
      have ranAlone : deed.RanAlone := by
        intro call same
        cases called.symm.trans same
        exact ⟨alone, congrArg (request.target.invoke request.inputs) reached.outputs⟩
      have calls : (deeds ++ deed :: more).filterMap Deed.call =
          deeds.filterMap Deed.call ++ [⟨request.target, request.inputs, request.ownResult⟩] := by
        rw [List.filterMap_append, List.filterMap_cons_some called,
          List.filterMap_eq_nil_iff.mpr quiet]
      rw [clients_resume waits returned]
      refine .of_turn sound idle reached.keyspace reached.course ?_ reached.ops ?_ turn rfl
        (set_of_waiting waits)
      · refine List.forall_mem_append.mpr ⟨reached.alone, List.forall_mem_cons.mpr ⟨ranAlone, ?_⟩⟩
        exact fun other inMore => .of_quiet (quiet other inMore)
      · rw [books, calls, Ledger.book_append]
        rfl

theorem Stage.not_expires (stage : Stage origin dag loaded client service) :
    service.permits (.expire client) = false := by
  cases stage with
  | waits reached =>
      obtain ⟨_, session⟩ := reached.session
      rw [permits, session]
      rfl
  | served reached =>
      obtain ⟨_, session⟩ := reached.session
      rw [permits, session]
      rfl
  | ended ended =>
      rw [permits, ended.session]
      rfl

theorem Stage.after (stage : Stage origin dag loaded client service)
    (inTime : ∀ op ∈ dag.ops, op.InTime) (sound : service.engine.Sound records) {action : Action}
    (own : action.isAlone client = true) (permitted : service.permits action = true) :
    Stage origin dag loaded client (service.after action) := by
  cases action with
  | work event =>
      obtain ⟨isWork, allowed⟩ := Bool.and_eq_true_iff.mp permitted
      exact stage.work isWork allowed
  | reorder turns calls =>
      change Stage _ _ _ _ (service.onDispatcher fun dispatcher =>
        { dispatcher with turns := turns, calls := calls })
      cases stage with
      | waits reached attends unknown books =>
          exact .waits (reached.onDispatcher _) ⟨attends.here, attends.elsewhere⟩ unknown books
      | served reached idle alone result books =>
          exact .served (reached.onDispatcher _) idle alone result books
      | ended ended => exact .ended (ended.onDispatcher ended.idle ⟨rfl, rfl⟩)
  | resume acting =>
      cases eq_of_beq own
      exact stage.resume inTime sound permitted
  | expire acting =>
      cases eq_of_beq own
      cases stage.not_expires.symm.trans permitted
  | _ => cases own

/-! ### From the command on -/

namespace Alone

variable {begun : Service} {store : Engine} {config : Config} {clustered : Bool}
  {history : History}

theorem run (alone : Alone client begun service) (run : Run store history begun) :
    ∃ later, Run store later service := by
  induction alone with
  | refl => exact ⟨history, run⟩
  | step _ action _ permitted ih =>
      obtain ⟨later, onward⟩ := ih
      exact ⟨_, onward.step action permitted⟩

theorem trans {final : Service} (first : Alone client begun service)
    (second : Alone client service final) : Alone client begun final := by
  induction second with
  | refl => exact first
  | step _ action own permitted ih => exact ih.step action own permitted

theorem works {dispatcher : Dispatcher}
    (works : service.engine.dispatcher.Works dispatcher) :
    Alone client service (service.onDispatcher fun _ => dispatcher) := by
  induction works with
  | refl => exact .refl
  | step _ permitted isWork ih =>
      exact ih.step (.work _) rfl (Bool.and_eq_true_iff.mpr ⟨isWork, permitted⟩)
  | reorder _ turns calls ih => exact ih.step (.reorder turns calls) rfl rfl

theorem stage (alone : Alone client begun service)
    (run : Run (.create config clustered) history begun) (inTime : ∀ op ∈ dag.ops, op.InTime)
    (stage : Stage origin dag loaded client begun) : Stage origin dag loaded client service := by
  induction alone with
  | refl => exact stage
  | step before action own permitted ih =>
      obtain ⟨_, reached⟩ := before.run run
      obtain ⟨_, sound⟩ := reached.sound
      exact ih.after inTime sound.engine own permitted

theorem of_answered (alone : Alone client begun service) {reply : Reply}
    (answered : begun.clients[client]? = some (.answered reply))
    (idle : begun.engine.dispatcher.Idle) :
    service.clients[client]? = some (.answered reply) ∧
      service.engine.keyspace = begun.engine.keyspace ∧ service.engine.dispatcher.Idle ∧
      begun.engine.dispatcher.Quiet service.engine.dispatcher := by
  induction alone with
  | refl => exact ⟨answered, rfl, idle, rfl, rfl⟩
  | step _ action own permitted ih =>
      obtain ⟨session, keyspace, still, quiet⟩ := ih
      cases action with
      | work event =>
          obtain ⟨isWork, allowed⟩ := Bool.and_eq_true_iff.mp permitted
          obtain ⟨stays, quietToo⟩ := still.after isWork allowed
          exact ⟨session, keyspace, stays, quiet.trans quietToo⟩
      | reorder turns calls => exact ⟨session, keyspace, still, quiet⟩
      | resume acting =>
          cases eq_of_beq own
          rw [permits, session] at permitted
          cases permitted
      | expire acting =>
          cases eq_of_beq own
          rw [permits, session] at permitted
          cases permitted
      | _ => cases own

end Alone

/-- A graph that is not refused has come as far as it can in the moment of its command. -/
theorem Run.stage_begun {config : Config} {clustered : Bool} {history : History}
    (run : Run (.create config clustered) history service)
    (idle : service.engine.dispatcher.Idle) {arguments : List Bytes} {flavor : Option DagFlavor}
    (commanded : Dag.Commanded service.engine.keyspace arguments flavor dag)
    (patient : dag.timeout = none)
    (loading : loadContext service.engine.keyspace .empty dag.load = .ok loaded)
    (accepted : service.engine.refusal? dag = none) (giveUpAt : Nat) :
    Stage service.engine dag loaded service.clients.length
      (service.after (.command arguments giveUpAt)) := by
  obtain ⟨_, sound⟩ := run.sound
  obtain ⟨_, same, runs⟩ := Engine.start_of_accepted accepted
  cases same.symm.trans loading
  rw [Engine.deadlineOf, patient, Option.map_none] at runs
  obtain ⟨deeds, final, quiet, turn⟩ :=
    service.engine.runOps_turn dag none loaded [] dag.ops
  have begins := commanded.begins.trans runs
  have session : (service.after (.command arguments giveUpAt)).clients[service.clients.length]? =
      some (.ofProgress giveUpAt (service.engine.runOps dag none loaded [] dag.ops).2) := by
    rw [← begins, Service.after, List.getElem?_append_right (Nat.le_refl _), Nat.sub_self]
    rfl
  have nothing : ([] ++ deeds).filterMap Deed.call = [] := List.filterMap_eq_nil_iff.mpr quiet
  refine .of_turn sound.engine idle rfl (.nil loaded) ?_ rfl ?_ turn (congrArg Prod.fst begins)
    session
  · exact fun deed member => .of_quiet (quiet deed member)
  · rw [nothing]
    rfl

end Service

end InferenceStore
