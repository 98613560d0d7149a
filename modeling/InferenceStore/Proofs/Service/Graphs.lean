import InferenceStore.Proofs.Service.Clients

/-
Clients that run graphs. What a client has got so far is a course of its graph from the tensors
that it loaded. The course is made of the results that the client went on with and of nothing else
from the store; every run that it asked for was submitted in the moment at which the client began
to wait, and no moment but the last one writes to a key.
-/

namespace InferenceStore

namespace Engine

theorem keyspace_ensureQueue (engine : Engine) (device : Device) :
    (engine.ensureQueue device).1.keyspace = engine.keyspace := by
  unfold ensureQueue
  split <;> rfl

theorem nextRequest_ensureQueue (engine : Engine) (device : Device) :
    (engine.ensureQueue device).1.dispatcher.nextRequest = engine.dispatcher.nextRequest := by
  unfold ensureQueue
  split <;> rfl

end Engine

namespace Service

def execution? (service : Service) (client : Nat) : Option Execution :=
  match service.clients[client]? with
  | some (.waiting execution _) => some execution
  | _ => none

namespace Moment

def delivered? (moment : Moment) : Option (Outcome (List Tensor)) :=
  match moment.action with
  | .resume client => (moment.before.execution? client).bind fun execution =>
      moment.before.engine.dispatcher.result? execution.request
  | _ => none

def leaves? (moment : Moment) : Option Execution := moment.client?.bind moment.after.execution?

structure Submits (moment : Moment) (asked : Target × List Tensor × Nat) : Prop where
  engine : ∃ deadline, moment.after.engine =
    (moment.before.engine.submit asked.1 asked.2.1 asked.2.2 deadline).1
  waits : ∃ execution, moment.leaves? = some execution ∧
    execution.request = moment.before.engine.dispatcher.nextRequest

def Answers (moment : Moment) (client : Nat) (outputs : List String)
    (result : Outcome (List Tensor)) : Prop :=
  ∃ execution, moment.before.execution? client = some execution ∧ execution.outputs = outputs ∧
    moment.before.engine.dispatcher.result? execution.request = some result

end Moment

/-- What a client's moments say about the runs that its graph asked for. -/
structure Told (client : Nat) (own : History) (deeds : List Deed)
    (pending : List (Target × List Tensor × Nat)) : Prop where
  delivered : own.filterMap Moment.delivered? = deeds.filterMap Deed.result?
  submitted : List.Forall₂ Moment.Submits (own.filter fun moment => moment.leaves?.isSome)
    (deeds.filterMap Deed.asked? ++ pending)
  answered : ∀ deed ∈ deeds, ∀ call, deed.call = some call →
    ∃ moment ∈ own, moment.Answers client deed.op.outputs call.result

/-- A graph that has come to this operation, which asked for a run. -/
structure Halted (dag : Dag) (loaded : Context) (client : Nat) (own : History)
    (deeds : List Deed) (bound : Context) (op : Op) (rest : List Op) : Prop where
  course : Course loaded deeds bound
  ops : dag.ops = deeds.map Deed.op ++ op :: rest
  asks : ∃ target inputs, op.step bound = .request target inputs op.outputs ∧
    Told client own deeds [(target, inputs, op.outputs.length)]

/-- What has come of a graph that runs from the tensors loaded, by what its client did. -/
inductive Life (dag : Dag) (loaded : Context) (client : Nat) (own : History) : Session → Prop
  | waiting {deeds : List Deed} {bound : Context} {op : Op} {rest : List Op}
      {deadline : Option Nat} {request : RequestId} {giveUpAt : Nat}
      (silent : ∀ moment ∈ own, moment.IsSilent)
      (halted : Halted dag loaded client own deeds bound op rest) :
      Life dag loaded client own
        (.waiting ⟨dag, deadline, bound, deeds.map Deed.reply, request, op.outputs, rest⟩ giveUpAt)
  | gaveUp {deeds : List Deed} {bound : Context} {op : Op} {rest : List Op}
      (silent : ∀ moment ∈ own, moment.IsSilent)
      (halted : Halted dag loaded client own deeds bound op rest) :
      Life dag loaded client own .gaveUp
  | timedOut (silent : ∀ moment ∈ own, moment.IsSilent) :
      Life dag loaded client own (.answered .timedOut)
  | concluded {front : History} {last : Moment} {deeds : List Deed} {final : Context}
      (split : own = front ++ [last])
      (silent : ∀ moment ∈ front, moment.IsSilent)
      (course : Course loaded deeds final)
      (ops : dag.ops = deeds.map Deed.op)
      (told : Told client own deeds [])
      (writes : last.after.engine.keyspace =
        (persist final last.before.engine.keyspace dag.persist).1) :
      Life dag loaded client own
        (.answered (dag.reply (deeds.map Deed.reply)
          (persist final last.before.engine.keyspace dag.persist).2))

variable {store : Engine} {history : History} {service : Service} {client : Nat}
  {session : Session}

theorem execution?_of_waiting {execution : Execution} {giveUpAt : Nat}
    (waits : service.clients[client]? = some (.waiting execution giveUpAt)) :
    service.execution? client = some execution := by
  simp only [execution?, waits]

namespace Told

variable {own : History} {deeds more : List Deed} {moment : Moment}
  {pending later : List (Target × List Tensor × Nat)}

theorem nil (client : Nat) : Told client [] [] [] :=
  ⟨rfl, .nil, fun _ member => (List.not_mem_nil member).elim⟩

theorem snoc (told : Told client own deeds pending)
    (delivered : moment.delivered?.toList = more.filterMap Deed.result?)
    (asked : more.filterMap Deed.asked? = pending)
    (submitted : List.Forall₂ Moment.Submits
      ([moment].filter fun moment => moment.leaves?.isSome) later)
    (answered : ∀ deed ∈ more, ∀ call, deed.call = some call →
      moment.Answers client deed.op.outputs call.result) :
    Told client (own ++ [moment]) (deeds ++ more) later where
  delivered := by
    rw [List.filterMap_append, List.filterMap_append, told.delivered, ← delivered]
    cases found : moment.delivered? <;> simp [found]
  submitted := by
    rw [List.filter_append, List.filterMap_append, asked]
    exact List.rel_append told.submitted submitted
  answered := by
    intro deed member call called
    rcases List.mem_append.mp member with before | behind
    · obtain ⟨earlier, known, answers⟩ := told.answered deed before call called
      exact ⟨earlier, List.mem_append_left _ known, answers⟩
    · exact ⟨moment, List.mem_append_right _ (List.mem_singleton.mpr rfl),
        answered deed behind call called⟩

theorem idle (told : Told client own deeds pending) (delivered : moment.delivered? = none)
    (leaves : moment.leaves? = none) : Told client (own ++ [moment]) deeds pending where
  delivered := by simpa [delivered] using told.delivered
  submitted := by simpa [leaves] using told.submitted
  answered := by
    intro deed member call called
    obtain ⟨earlier, known, answers⟩ := told.answered deed member call called
    exact ⟨earlier, List.mem_append_left _ known, answers⟩

end Told

theorem leaves?_of_abandon (service : Service) (client : Nat) :
    Moment.leaves? ⟨service, .abandon client⟩ = none := by
  simp only [Moment.leaves?, Moment.client?, Moment.after, after, Option.bind_some, execution?]
  rw [List.getElem?_set_self']
  cases service.clients[client]? <;> rfl

theorem Halted.abandoned {dag : Dag} {loaded bound : Context} {own : History} {deeds : List Deed}
    {op : Op} {rest : List Op} (halted : Halted dag loaded client own deeds bound op rest) :
    Halted dag loaded client (own ++ [⟨service, .abandon client⟩]) deeds bound op rest := by
  obtain ⟨course, ops, target, inputs, step, told⟩ := halted
  exact ⟨course, ops, target, inputs, step, told.idle rfl (leaves?_of_abandon service client)⟩

namespace Life

variable {dag : Dag} {loaded context final : Context} {own : History} {deeds more : List Deed}
  {pending : List (Target × List Tensor × Nat)} {ops : List Op} {deadline : Option Nat}
  {moment : Moment} {outcome : Engine × Progress} {giveUpAt : Nat}

theorem of_turn (silent : ∀ moment ∈ own, moment.IsSilent) (course : Course loaded deeds context)
    (opsLeft : dag.ops = deeds.map Deed.op ++ ops) (told : Told client own deeds pending)
    (turn : moment.before.engine.Turn dag deadline context (deeds.map Deed.reply) ops more final
      outcome)
    (acts : moment.client? = some client) (engine : moment.after.engine = outcome.1)
    (session : moment.after.clients[client]? = some (.ofProgress giveUpAt outcome.2))
    (delivered : moment.delivered?.toList = more.filterMap Deed.result?)
    (asked : more.filterMap Deed.asked? = pending)
    (answered : ∀ deed ∈ more, ∀ call, deed.call = some call →
      moment.Answers client deed.op.outputs call.result) :
    Life dag loaded client (own ++ [moment]) (.ofProgress giveUpAt outcome.2) := by
  cases turn with
  | ended onward same =>
      have leaves : moment.leaves? = none := by
        simp only [Moment.leaves?, acts, Option.bind_some, execution?, session]
        rfl
      have complete : Told client (own ++ [moment]) (deeds ++ more) [] :=
        told.snoc delivered asked (by simp [leaves]) answered
      have writes := congrArg Engine.keyspace engine
      have concluded := Life.concluded rfl silent (course.append onward)
        (by rw [opsLeft, same, List.map_append]) complete writes
      rw [List.map_append] at concluded
      exact concluded
  | @asks op rest target inputs onward same step =>
      let submitted := moment.before.engine.submit target inputs op.outputs.length deadline
      have waits : moment.leaves? = some ⟨dag, deadline, final,
          deeds.map Deed.reply ++ more.map Deed.reply, submitted.2, op.outputs, rest⟩ := by
        simp only [Moment.leaves?, acts, Option.bind_some, execution?, session]
        rfl
      have submits : moment.Submits (target, inputs, op.outputs.length) :=
        ⟨⟨deadline, engine⟩, _, waits, Engine.nextRequest_ensureQueue ..⟩
      have quiet : moment.IsSilent :=
        (congrArg Engine.keyspace engine).trans (Engine.keyspace_ensureQueue ..)
      have silentToo : ∀ each ∈ own ++ [moment], each.IsSilent :=
        List.forall_mem_append.mpr ⟨silent, List.forall_mem_singleton.mpr quiet⟩
      have onwards : Told client (own ++ [moment]) (deeds ++ more)
          [(target, inputs, op.outputs.length)] :=
        told.snoc delivered asked (by simpa [waits] using List.Forall₂.cons submits .nil) answered
      have opsNow : dag.ops = (deeds ++ more).map Deed.op ++ op :: rest := by
        rw [opsLeft, same, List.map_append, List.append_assoc]
      have waiting : Life dag loaded client (own ++ [moment])
          (.waiting ⟨dag, deadline, final, (deeds ++ more).map Deed.reply, submitted.2, op.outputs,
            rest⟩ giveUpAt) :=
        .waiting silentToo ⟨course.append onward, opsNow, target, inputs, step, onwards⟩
      rw [List.map_append] at waiting
      exact waiting

end Life

/-! ### From the command on -/

def Moment.Starts (begun : Moment) (dag : Dag) (loaded : Context) : Prop :=
  ∃ arguments giveUpAt deadline, begun.action = .command arguments giveUpAt ∧
    begun.before.engine.begin arguments =
      begun.before.engine.runOps dag deadline loaded [] dag.ops

/-- The client's command, sent in this moment, is read as this graph. -/
structure Sends (history : History) (client : Nat) (begun : Moment) (origin : Option DagFlavor)
    (dag : Dag) : Prop where
  happened : begun ∈ history
  sender : begun.before.clients.length = client
  command : ∃ arguments giveUpAt, begun.action = .command arguments giveUpAt ∧
    Dag.Commanded begun.before.engine.keyspace arguments origin dag

def Moment.reads (moment : Moment) (client : Nat) (flavor : DagFlavor) : Bool :=
  moment.before.clients.length == client &&
    match moment.action with
    | .command arguments _ =>
        Command.name arguments == flavor.name &&
          (Dag.ofArguments flavor moment.before.engine.keyspace arguments).isOk
    | _ => false

namespace Sends

variable {begun : Moment} {origin : Option DagFlavor} {dag : Dag}

theorem of_reads {flavor : DagFlavor} (happened : begun ∈ history)
    (reads : begun.reads client flavor = true) :
    ∃ dag, Sends history client begun (some flavor) dag := by
  obtain ⟨sender, command⟩ := Bool.and_eq_true_iff.mp reads
  cases sent : begun.action with
  | command arguments giveUpAt =>
      rw [sent] at command
      obtain ⟨named, isRead⟩ := Bool.and_eq_true_iff.mp command
      cases read : Dag.ofArguments flavor begun.before.engine.keyspace arguments with
      | error cause =>
          rw [read] at isRead
          cases isRead
      | ok dag =>
          exact ⟨dag, happened, eq_of_beq sender, arguments, giveUpAt, sent,
            .flavored (eq_of_beq named) read⟩
  | _ =>
      rw [sent] at command
      cases command

theorem starts (sends : Sends history client begun origin dag)
    (accepted : begun.before.engine.refusal? dag = none) :
    ∃ loaded, loadContext begun.before.engine.keyspace .empty dag.load = .ok loaded ∧
      begun.Starts dag loaded := by
  obtain ⟨arguments, giveUpAt, sent, commanded⟩ := sends.command
  obtain ⟨loaded, loading, runs⟩ := Engine.start_of_accepted accepted
  exact ⟨loaded, loading, arguments, giveUpAt, _, sent, commanded.begins.trans runs⟩

end Sends

namespace Run

variable {begun : Moment} {dag : Dag} {loaded : Context} {arguments : List Bytes} {giveUpAt : Nat}

theorem head_of (run : Run store history service) (happened : begun ∈ history)
    (sender : begun.before.clients.length = client)
    (sent : begun.action = .command arguments giveUpAt) :
    (history.of client).head? = some begun := by
  obtain ⟨earlier, later, rfl⟩ := List.append_of_mem happened
  have nothing : History.of earlier client = [] :=
    run.before.1.of_eq_nil (List.getElem?_eq_none (Nat.le_of_eq sender))
  have own : begun.client? = some client := by
    simp only [Moment.client?, sent, sender]
  have split : History.of (earlier ++ begun :: later) client =
      History.of earlier client ++ begun :: History.of later client := by
    simp [History.of, own]
  rw [split, nothing]
  rfl

theorem head_of_sends {origin : Option DagFlavor} (run : Run store history service)
    (sends : Sends history client begun origin dag) :
    (history.of client).head? = some begun := by
  obtain ⟨arguments, giveUpAt, sent, _⟩ := sends.command
  exact run.head_of sends.happened sends.sender sent

private theorem head?_of_concat {own : History} {last : Moment}
    (head : (own ++ [last]).head? = some begun) (later : last ≠ begun) :
    own.head? = some begun := by
  cases own with
  | nil => exact absurd (Option.some.inj head) later
  | cons first rest => exact head

private theorem action_of_first {action : Action}
    (sent : begun.action = .command arguments giveUpAt)
    (same : (⟨service, action⟩ : Moment) = begun) : action = .command arguments giveUpAt :=
  (congrArg Moment.action same).trans sent

/-- A command that is answered at once is all that its client ever does. -/
theorem answered_at_once (run : Run store history service)
    (found : service.clients[client]? = some session)
    (head : (history.of client).head? = some begun)
    (sent : begun.action = .command arguments giveUpAt) {engine : Engine} {reply : Reply}
    (finished : begun.before.engine.begin arguments = (engine, .finished reply)) :
    history.of client = [begun] ∧ session = .answered reply ∧ begun.after.engine = engine := by
  refine run.on_client (motive := fun own session => own.head? = some begun →
    own = [begun] ∧ session = .answered reply ∧ begun.after.engine = engine)
    ?began ?resumed ?expired ?abandoned found head
  case began =>
    intro history service arguments giveUpAt _ _ first
    cases first
    cases sent
    simp only [Moment.after, Service.after, finished, Session.ofProgress, and_self]
  case resumed =>
    intro history service execution giveUpAt result _ _ _ before first
    have later := before (head?_of_concat first fun same => by cases action_of_first sent same)
    cases later.2.1
  case expired =>
    intro history service execution giveUpAt _ before first
    have later := before (head?_of_concat first fun same => by cases action_of_first sent same)
    cases later.2.1
  case abandoned =>
    intro history service execution giveUpAt _ before first
    have later := before (head?_of_concat first fun same => by cases action_of_first sent same)
    cases later.2.1

theorem life (run : Run store history service)
    (found : service.clients[client]? = some session)
    (head : (history.of client).head? = some begun) (starts : begun.Starts dag loaded) :
    Life dag loaded client (history.of client) session := by
  obtain ⟨arguments, giveUpAt, deadline, sent, runs⟩ := starts
  refine run.on_client (motive := fun own session => own.head? = some begun →
    Life dag loaded client own session) ?began ?resumed ?expired ?abandoned found head
  case began =>
    intro history service arguments' giveUpAt' _ sender first
    cases first
    cases sent
    obtain ⟨deeds, final, quiet, turn⟩ :=
      service.engine.runOps_turn dag deadline loaded [] dag.ops
    rw [← runs] at turn
    obtain ⟨noResults, noRuns⟩ := Deed.filterMap_of_quiet quiet
    change Life dag loaded client ([] ++ [_]) _
    refine .of_turn (fun _ member => (List.not_mem_nil member).elim) (.nil loaded) rfl
      (.nil client) turn (congrArg some sender) rfl ?_ noResults.symm noRuns ?_
    · rw [← sender]
      exact List.getElem?_concat_length ..
    · intro deed member call called
      rw [quiet deed member] at called
      cases called
  case resumed =>
    intro history service execution giveUpAt result _ waits returned before first
    have own := clients_resume waits returned
    cases before (head?_of_concat first fun same => by cases action_of_first sent same) with
    | @waiting deeds bound op rest deadline request giveUpAt silent halted =>
      obtain ⟨course, ops, target, inputs, step, told⟩ := halted
      by_cases inTime : result = .error .timedOut
      · subst inTime
        refine .timedOut (List.forall_mem_append.mpr ⟨silent, List.forall_mem_singleton.mpr ?_⟩)
        exact congrArg (fun service => service.engine.keyspace) own
      · obtain ⟨deed, deeds', final, rfl, called, quiet, turn⟩ :=
          service.engine.resume_turn
            ⟨dag, deadline, bound, deeds.map Deed.reply, request, op.outputs, rest⟩ step inTime
        obtain ⟨noResults, noRuns⟩ := Deed.filterMap_of_quiet quiet
        refine .of_turn silent course ops told turn rfl
          (congrArg Service.engine own) ?_ ?_ ?_ ?_
        · exact (congrArg (fun service => service.clients[client]?) own).trans
            (set_of_waiting waits)
        · simp only [Moment.delivered?, execution?_of_waiting waits, Option.bind_some, returned,
            Option.toList_some, List.filterMap_cons, Deed.result?, called, Option.map_some]
          rw [noResults]
        · simp only [List.filterMap_cons, Deed.asked?, called, Option.map_some]
          rw [noRuns]
        · intro other member call calledToo
          rcases List.mem_cons.mp member with same | inRest
          · rw [same, called] at calledToo
            cases calledToo
            exact ⟨_, execution?_of_waiting waits, by rw [same], returned⟩
          · rw [quiet other inRest] at calledToo
            cases calledToo
  case expired =>
    intro history service execution giveUpAt _ before first
    cases before (head?_of_concat first fun same => by cases action_of_first sent same) with
    | waiting silent =>
      exact .timedOut (List.forall_mem_append.mpr ⟨silent, List.forall_mem_singleton.mpr rfl⟩)
  case abandoned =>
    intro history service execution giveUpAt _ before first
    cases before (head?_of_concat first fun same => by cases action_of_first sent same) with
    | waiting silent halted =>
      exact .gaveUp (List.forall_mem_append.mpr ⟨silent, List.forall_mem_singleton.mpr rfl⟩)
        halted.abandoned

end Run

end Service

end InferenceStore
