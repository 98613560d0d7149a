import InferenceStore.Proofs.Dag.GraphForm
import InferenceStore.Proofs.Service.Clients
import Mathlib.Data.List.Induction

/-
Two services that differ in one client. Where one runs an operation on its own, the other runs it
as a graph; all else is the same. Whatever happens to both, the stores stay the same, both clients
wait for the same, and in the end the one replies what the list of the other comes to.
-/

namespace InferenceStore

open Command

/-- What a list of results comes to for a run on its own: the result of the operation if that is
an error, else the first failure to persist, else the result. -/
def Reply.alone : Reply → Reply
  | .array (own :: failures) => if own.isError then own else failures.headD own
  | reply => reply

/-! ### Names -/

namespace Context

def Same (context other : Context) : Prop := ∀ name, context.get? name = other.get? name

variable {context other : Context}

theorem Same.collect? (same : context.Same other) (names : List String) :
    context.collect? names = other.collect? names := by
  unfold Context.collect?
  rw [show context.get? = other.get? from funext same]

theorem Same.insertAll (same : context.Same other) (names : List String) (tensors : List Tensor) :
    (context.insertAll names tensors).Same (other.insertAll names tensors) := by
  induction names generalizing context other tensors with
  | nil => exact same
  | cons name rest ih =>
      cases tensors with
      | nil => exact same
      | cons tensor behind =>
          rw [insertAll_cons, insertAll_cons]
          apply ih
          intro bound
          rw [get?_insert, get?_insert, same bound]

theorem Same.persist (same : context.Same other) (keyspace : Keyspace) (names : List String) :
    InferenceStore.persist context keyspace names =
      InferenceStore.persist other keyspace names := by
  induction names generalizing keyspace with
  | nil => rfl
  | cons name rest ih =>
      simp only [InferenceStore.persist, same name, ih]

end Context

/-! ### Executions -/

/-- Both wait for the same run, of the only operation that they have. -/
structure Execution.Alike (alone graph : Execution) : Prop where
  deadline : alone.deadline = graph.deadline
  request : alone.request = graph.request
  outputs : alone.outputs = graph.outputs
  context : alone.context.Same graph.context
  persist : alone.dag.persist = graph.dag.persist
  single : alone.dag.singleOp = true ∧ graph.dag.singleOp = false
  first : alone.replies = [] ∧ graph.replies = []
  last : alone.rest = [] ∧ graph.rest = []

/-- The one has got what the list of the other comes to, or both still wait. -/
inductive Session.Twins : Session → Session → Prop
  | answered (reply : Reply) : Twins (.answered reply.alone) (.answered reply)
  | waiting {alone graph : Execution} (alike : alone.Alike graph) (giveUpAt : Nat) :
      Twins (.waiting alone giveUpAt) (.waiting graph giveUpAt)
  | gaveUp : Twins .gaveUp .gaveUp

structure Engine.Twins (alone graph : Engine × Progress) : Prop where
  engine : alone.1 = graph.1
  sessions : ∀ giveUpAt, Session.Twins (.ofProgress giveUpAt alone.2) (.ofProgress giveUpAt graph.2)

namespace Engine

variable {engine : Engine} {dag other : Dag} {context bound : Context}

theorem twins_finished (engine : Engine) (reply : Reply) :
    Twins (engine, .finished reply.alone) (engine, .finished reply) :=
  ⟨rfl, fun _ => .answered reply⟩

theorem reply_alone (single : dag.singleOp = true) (several : other.singleOp = false)
    (own : Reply) (failures : List Error) :
    dag.reply [own] failures = (other.reply [own] failures).alone := by
  simp only [Dag.reply, single, several, if_true, Bool.false_eq_true, if_false, Reply.alone,
    List.singleton_append, List.getLast?_singleton, Option.getD_some]
  cases failures <;> rfl

theorem twins_conclude (same : context.Same bound) (persist : dag.persist = other.persist)
    (single : dag.singleOp = true) (several : other.singleOp = false) (own : Reply) :
    Twins (engine.conclude dag context [own]) (engine.conclude other bound [own]) := by
  simp only [conclude, same.persist, persist, reply_alone single several]
  exact twins_finished _ _

theorem twins_resume (engine : Engine) {alone graph : Execution} (alike : alone.Alike graph)
    (result : Outcome (List Tensor)) :
    Twins (engine.resume alone result) (engine.resume graph result) := by
  have concludes {context bound : Context} (same : context.Same bound) (own : Reply) :
      Twins (engine.runOps alone.dag alone.deadline context (alone.replies ++ [own]) alone.rest)
        (engine.runOps graph.dag graph.deadline bound (graph.replies ++ [own]) graph.rest) := by
    rw [alike.first.1, alike.first.2, alike.last.1, alike.last.2]
    exact twins_conclude same alike.persist alike.single.1 alike.single.2 own
  unfold resume
  split
  · rw [alike.outputs]
    exact concludes (alike.context.insertAll _ _) _
  · exact twins_finished engine .timedOut
  · exact concludes alike.context _

theorem loaded_same {keyspace : Keyspace} {names others : List String} {loaded also : Context}
    (done : loadContext keyspace .empty names = .ok loaded)
    (doneToo : loadContext keyspace .empty others = .ok also)
    (same : ∀ name, name ∈ names ↔ name ∈ others) : loaded.Same also := by
  intro name
  rw [get?_of_loadContext done, get?_of_loadContext doneToo]
  simp only [same]

theorem twins_start {op : Op} {target : Target} (runs : op.target? = some target)
    (distinct : op.outputs.Nodup) :
    Twins (engine.start (.single op)) (engine.start (.graphOf op)) := by
  have persists : (Dag.single op).persist = op.outputs := Dag.firstOccurrences_eq_iff.mpr distinct
  cases refusal : engine.refusal? (.single op) with
  | some cause =>
      rw [start_of_refusal refusal,
        start_of_refusal ((engine.refusal?_graphOf op).trans refusal)]
      exact twins_finished engine (.error cause)
  | none =>
      obtain ⟨loaded, done, begun⟩ := start_of_accepted refusal
      obtain ⟨also, doneToo, begunToo⟩ :=
        start_of_accepted ((engine.refusal?_graphOf op).trans refusal)
      have same : loaded.Same also := loaded_same done doneToo fun name => mem_firstOccurrences
      have step : op.step loaded = runStep loaded target op.inputs op.outputs :=
        Op.step_of_target runs
      have stepToo : op.untimed.step also = runStep also target op.inputs op.outputs := by
        rw [Op.step_of_target (op.target?_untimed.trans runs), op.inputs_untimed,
          op.outputs_untimed]
      rw [runStep] at step
      rw [runStep, ← same.collect?] at stepToo
      have ops : (Dag.single op).ops = [op] := rfl
      have opsToo : (Dag.graphOf op).ops = [op.untimed] := rfl
      rw [begun, begunToo, ops, opsToo, runOps, runOps, step, stepToo]
      cases loaded.collect? op.inputs with
      | none => exact twins_conclude same persists rfl rfl .notAvailable
      | some tensors =>
          refine ⟨rfl, fun giveUpAt => .waiting ?_ giveUpAt⟩
          exact ⟨rfl, rfl, rfl, same, persists, ⟨rfl, rfl⟩, ⟨rfl, rfl⟩, rfl, rfl⟩

theorem twins_begin {arguments : List Bytes} {op : Op}
    {loadCount persistCount : Bytes}
    (rephrased : Dag.Rephrased engine.keyspace arguments op loadCount persistCount) :
    Twins (engine.begin arguments)
      (engine.begin (Dag.graphWords op loadCount persistCount arguments)) := by
  obtain ⟨target, runs⟩ := rephrased.executed.runs
  rw [rephrased.executed.commanded.begins, rephrased.commanded.begins]
  exact twins_start runs rephrased.distinct

end Engine

/-! ### The store's own order -/

namespace Session.Twins

variable {engine : Engine} {alone graph : Session}

theorem isOver (twins : alone.Twins graph) : alone.isOver = graph.isOver := by
  cases twins <;> rfl

theorem opsLeft (twins : alone.Twins graph) : alone.opsLeft = graph.opsLeft := by
  cases twins with
  | waiting alike _ => simp only [Session.opsLeft, alike.last]
  | _ => rfl

theorem moments (twins : alone.Twins graph) : alone.moments = graph.moments := by
  cases twins with
  | waiting alike _ => simp only [Session.moments, alike.deadline]
  | _ => rfl

theorem isReady (twins : alone.Twins graph) (dispatcher : Dispatcher) :
    alone.isReady dispatcher = graph.isReady dispatcher := by
  cases twins with
  | waiting alike _ => simp only [Session.isReady, alike.request]
  | _ => rfl

theorem isDue (twins : alone.Twins graph) (now : Nat) : alone.isDue now = graph.isDue now := by
  cases twins with
  | waiting alike _ => simp only [Session.isDue, alike.deadline]
  | _ => rfl

theorem reply? (twins : alone.Twins graph) : alone.reply? = graph.reply?.map Reply.alone := by
  cases twins <;> rfl

theorem pollOne (twins : alone.Twins graph) (engine : Engine) :
    (engine.pollOne alone).1 = (engine.pollOne graph).1 ∧
      (engine.pollOne alone).2.Twins (engine.pollOne graph).2 := by
  cases twins with
  | answered reply => exact ⟨rfl, .answered reply⟩
  | gaveUp => exact ⟨rfl, .gaveUp⟩
  | @waiting one other alike giveUpAt =>
      simp only [Engine.pollOne, alike.request, alike.deadline]
      cases engine.dispatcher.result? other.request with
      | some result =>
          have goesOn := Engine.twins_resume engine alike result
          exact ⟨goesOn.engine, goesOn.sessions giveUpAt⟩
      | none =>
          dsimp only
          split
          · exact ⟨rfl, .answered .timedOut⟩
          · split
            · exact ⟨rfl, .gaveUp⟩
            · exact ⟨rfl, .waiting alike giveUpAt⟩

end Session.Twins

namespace Engine

structure Abreast (outcome other : Engine × List Session) : Prop where
  engine : outcome.1 = other.1
  sessions : List.Forall₂ Session.Twins outcome.2 other.2

variable {engine : Engine} {sessions others : List Session}

theorem map_twins {α : Type} {one other : Session → α}
    (same : ∀ {alone graph : Session}, alone.Twins graph → one alone = other graph)
    (twins : List.Forall₂ Session.Twins sessions others) :
    sessions.map one = others.map other := by
  induction twins with
  | nil => rfl
  | cons first _ ih => rw [List.map_cons, List.map_cons, same first, ih]

theorem all_isOver (twins : List.Forall₂ Session.Twins sessions others) :
    sessions.all Session.isOver = others.all Session.isOver := by
  have same := congrArg (·.all id) (map_twins Session.Twins.isOver twins)
  simpa only [List.all_map, Function.id_comp] using same

theorem isBusy_twins (twins : List.Forall₂ Session.Twins sessions others) :
    engine.isBusy sessions = engine.isBusy others := by
  have same := congrArg (·.any id) (map_twins (·.isReady engine.dispatcher) twins)
  have ready : sessions.any (Session.isReady engine.dispatcher) =
      others.any (Session.isReady engine.dispatcher) := by
    simpa only [List.any_map, Function.id_comp] using same
  rw [isBusy, isBusy, ready]

theorem moments_twins (twins : List.Forall₂ Session.Twins sessions others) :
    sessions.flatMap Session.moments = others.flatMap Session.moments := by
  rw [List.flatMap_def, List.flatMap_def, map_twins Session.Twins.moments twins]

theorem replies_twins (twins : List.Forall₂ Session.Twins sessions others) :
    sessions.map Session.reply? =
      (others.map Session.reply?).map (Option.map Reply.alone) := by
  rw [map_twins Session.Twins.reply? twins, List.map_map]
  rfl

theorem poll_cons (engine : Engine) (session : Session) (rest : List Session) :
    engine.poll (session :: rest) =
      (((engine.pollOne session).1.poll rest).1,
        (engine.pollOne session).2 :: ((engine.pollOne session).1.poll rest).2) := rfl

theorem abreast_poll (engine : Engine) (twins : List.Forall₂ Session.Twins sessions others) :
    Abreast (engine.poll sessions) (engine.poll others) := by
  induction twins generalizing engine with
  | nil => exact ⟨rfl, .nil⟩
  | @cons _ graph _ _ first _ ih =>
      obtain ⟨store, polled⟩ := first.pollOne engine
      have behind := ih (engine.pollOne graph).1
      rw [poll_cons, poll_cons, store]
      exact ⟨behind.engine, .cons polled behind.sessions⟩

theorem abreast_runRounds (rounds : Nat) (engine : Engine)
    (twins : List.Forall₂ Session.Twins sessions others) :
    Abreast (runRounds rounds engine sessions) (runRounds rounds engine others) := by
  induction rounds generalizing engine sessions others with
  | zero => exact ⟨rfl, twins⟩
  | succ rounds ih =>
      have settled := abreast_poll
        { engine with dispatcher := engine.dispatcher.takeTurns } twins
      simp only [runRounds]
      generalize poll _ sessions = first at settled
      generalize poll _ others = second at settled
      obtain ⟨polled, waiting⟩ := first
      obtain ⟨_, waitingToo⟩ := second
      obtain ⟨rfl, settled⟩ := settled
      dsimp only at settled ⊢
      rw [all_isOver settled, isBusy_twins settled, moments_twins settled]
      split
      · exact ⟨rfl, settled⟩
      · split
        · exact ih _ settled
        · split
          · exact ih _ settled
          · have ticked := abreast_poll { polled with
              dispatcher := polled.dispatcher.tick
                ((waitingToo.flatMap Session.moments).min?.getD polled.dispatcher.now) } settled
            rw [all_isOver ticked.sessions, ticked.engine]
            split
            · exact ⟨rfl, ticked.sessions⟩
            · exact ih _ ticked.sessions

theorem executeAll_abreast {patience : Nat} {commands instead : List (List Bytes)}
    (begun : Abreast (engine.beginAll patience commands) (engine.beginAll patience instead)) :
    engine.executeAll patience commands =
      ((engine.executeAll patience instead).1,
        (engine.executeAll patience instead).2.map (Option.map Reply.alone)) := by
  unfold executeAll
  generalize engine.beginAll patience commands = first at begun
  generalize engine.beginAll patience instead = second at begun
  obtain ⟨started, sessions⟩ := first
  obtain ⟨_, sessionsToo⟩ := second
  obtain ⟨rfl, twins⟩ := begun
  dsimp only at twins ⊢
  rw [all_isOver twins, map_twins Session.Twins.opsLeft twins]
  split
  · rw [replies_twins twins]
  · have ended := abreast_runRounds
      (patience + started.dispatcher.load + 4 * sizeSum (sessionsToo.map Session.opsLeft) + 4)
      started twins
    rw [ended.engine, replies_twins ended.sessions]

/-- Executed on its own or as a graph, an operation leaves the same store. -/
theorem execute_rephrased {arguments : List Bytes} {op : Op} {loadCount persistCount : Bytes}
    (rephrased : Dag.Rephrased engine.keyspace arguments op loadCount persistCount)
    (patience : Nat) :
    engine.execute patience arguments =
      ((engine.execute patience (Dag.graphWords op loadCount persistCount arguments)).1,
        (engine.execute patience (Dag.graphWords op loadCount persistCount arguments)).2.map
          Reply.alone) := by
  have begun := twins_begin rephrased
  have abreast : Abreast (engine.beginAll patience [arguments])
      (engine.beginAll patience [Dag.graphWords op loadCount persistCount arguments]) :=
    ⟨begun.engine, .cons (begun.sessions _) .nil⟩
  simp only [execute, executeAll_abreast abreast]
  cases (engine.executeAll patience
    [Dag.graphWords op loadCount persistCount arguments]).2 <;> simp

end Engine

/-! ### Any order -/

namespace Service

def follow (service : Service) (actions : List Action) : Option Service :=
  actions.foldlM
    (fun reached action => if reached.permits action then some (reached.after action) else none)
    service

def replies (service : Service) : List (Option Reply) := service.clients.map Session.reply?

theorem follow_cons (service : Service) (action : Action) (rest : List Action) :
    service.follow (action :: rest) =
      if service.permits action then (service.after action).follow rest else none := by
  rw [follow, List.foldlM_cons]
  split <;> rfl

/-- One client for whom the others have its twin. -/
structure TwinsAt (client : Nat) (clients others : List Session) (one other : Session) : Prop where
  here : clients[client]? = some one
  instead : others = clients.set client other
  twins : one.Twins other

theorem follow_concat (service : Service) (actions : List Action) (last : Action) :
    service.follow (actions ++ [last]) = (service.follow actions).bind fun reached =>
      if reached.permits last then some (reached.after last) else none := by
  rw [follow, List.foldlM_append]
  congr 1
  funext reached
  exact follow_cons reached last []

theorem follow_eq_some_iff {store : Engine} {actions : List Action} {service : Service} :
    follow ⟨store, []⟩ actions = some service ↔
      ∃ history, Run store history service ∧ history.map Moment.action = actions := by
  constructor
  · intro followed
    induction actions using List.reverseRecOn generalizing service with
    | nil =>
        cases followed
        exact ⟨[], .start, rfl⟩
    | append_singleton front last ih =>
        rw [follow_concat] at followed
        obtain ⟨reached, before, ends⟩ := Option.bind_eq_some_iff.mp followed
        obtain ⟨history, run, rfl⟩ := ih before
        split at ends
        · rename_i permitted
          cases ends
          exact ⟨_, run.step last permitted, List.map_append⟩
        · cases ends
  · rintro ⟨history, run, rfl⟩
    induction run with
    | start => rfl
    | step run action permitted ih =>
        rw [List.map_append, List.map_singleton, follow_concat, ih, Option.bind_some,
          if_pos permitted]

namespace TwinsAt

variable {client acting : Nat} {clients others : List Session} {one other session : Session}

theorem there (pair : TwinsAt client clients others one other) : others[client]? = some other := by
  rw [pair.instead]
  exact List.getElem?_set_self (List.getElem?_eq_some_iff.mp pair.here).1

theorem elsewhere (pair : TwinsAt client clients others one other) (apart : acting ≠ client) :
    others[acting]? = clients[acting]? := by
  rw [pair.instead]
  exact List.getElem?_set_ne apart.symm

theorem set_here (pair : TwinsAt client clients others one other) {next nextToo : Session}
    (twins : next.Twins nextToo) :
    TwinsAt client (clients.set client next) (others.set client nextToo) next nextToo := by
  refine ⟨List.getElem?_set_self (List.getElem?_eq_some_iff.mp pair.here).1, ?_, twins⟩
  rw [pair.instead, List.set_set, List.set_set]

theorem set_elsewhere (pair : TwinsAt client clients others one other) (apart : acting ≠ client) :
    TwinsAt client (clients.set acting session) (others.set acting session) one other := by
  refine ⟨(List.getElem?_set_ne apart).trans pair.here, ?_, pair.twins⟩
  rw [pair.instead, List.set_comm _ _ apart.symm]

theorem append (pair : TwinsAt client clients others one other) :
    TwinsAt client (clients ++ [session]) (others ++ [session]) one other := by
  have inside := (List.getElem?_eq_some_iff.mp pair.here).1
  refine ⟨(List.getElem?_append_left inside).trans pair.here, ?_, pair.twins⟩
  rw [pair.instead, List.set_append_left _ _ inside]

theorem any_eq (pair : TwinsAt client clients others one other) {check : Session → Bool}
    (same : check one = check other) (acting : Nat) :
    (clients[acting]?).any check = (others[acting]?).any check := by
  by_cases own : acting = client
  · rw [own, pair.here, pair.there, Option.any_some, Option.any_some, same]
  · rw [pair.elsewhere own]

theorem replies (pair : TwinsAt client clients others one other) :
    clients.map Session.reply? =
      (others.map Session.reply?).modify client (Option.map Reply.alone) := by
  apply List.ext_getElem?
  intro acting
  rw [List.getElem?_modify, List.getElem?_map, List.getElem?_map]
  by_cases own : acting = client
  · rw [own, pair.here, pair.there]
    simp [pair.twins.reply?]
  · rw [pair.elsewhere own]
    simp [Ne.symm own]

end TwinsAt

structure Twins (client : Nat) (alone graph : Service) : Prop where
  engine : alone.engine = graph.engine
  clients : ∃ one other, TwinsAt client alone.clients graph.clients one other

namespace Twins

variable {client : Nat} {alone graph : Service}

theorem permits (twins : Twins client alone graph) (action : Action) :
    alone.permits action = graph.permits action := by
  obtain ⟨same, one, other, pair⟩ := twins
  cases action with
  | resume acting =>
      simp only [Service.permits, same, pair.any_eq (pair.twins.isReady graph.engine.dispatcher)]
  | expire acting =>
      simp only [Service.permits, same, pair.any_eq (pair.twins.isDue graph.engine.dispatcher.now)]
  | abandon acting =>
      exact pair.any_eq (congrArg not pair.twins.isOver) acting
  | work event => simp only [Service.permits, same]
  | _ => rfl

theorem resume (twins : Twins client alone graph) (acting : Nat) :
    Twins client (alone.resume acting) (graph.resume acting) := by
  obtain ⟨same, one, other, pair⟩ := twins
  by_cases own : acting = client
  · subst own
    unfold Service.resume
    rw [pair.here, pair.there, same]
    cases pair.twins with
    | answered reply => exact ⟨same, _, _, pair⟩
    | gaveUp => exact ⟨same, _, _, pair⟩
    | @waiting execution other alike giveUpAt =>
        dsimp only
        rw [alike.request]
        cases graph.engine.dispatcher.result? other.request with
        | none => exact ⟨same, _, _, pair⟩
        | some result =>
            have resumed := Engine.twins_resume graph.engine alike result
            exact ⟨resumed.engine, _, _, pair.set_here (resumed.sessions giveUpAt)⟩
  · unfold Service.resume
    rw [pair.elsewhere own, same]
    split
    · split
      · exact ⟨rfl, one, other, pair.set_elsewhere own⟩
      · exact ⟨same, one, other, pair⟩
    · exact ⟨same, one, other, pair⟩

theorem ends {ended : Session} (twins : Twins client alone graph) (acting : Nat)
    (same : ended.Twins ended) :
    Twins client { alone with clients := alone.clients.set acting ended }
      { graph with clients := graph.clients.set acting ended } := by
  obtain ⟨engine, one, other, pair⟩ := twins
  by_cases own : acting = client
  · subst own
    exact ⟨engine, ended, ended, pair.set_here same⟩
  · exact ⟨engine, one, other, pair.set_elsewhere own⟩

theorem after (twins : Twins client alone graph) (action : Action) :
    Twins client (alone.after action) (graph.after action) := by
  cases action with
  | resume acting => exact twins.resume acting
  | expire acting => exact twins.ends acting (.answered .timedOut)
  | abandon acting => exact twins.ends acting .gaveUp
  | command arguments giveUpAt =>
      obtain ⟨same, one, other, pair⟩ := twins
      simp only [Service.after, same]
      exact ⟨rfl, one, other, pair.append⟩
  | work event =>
      obtain ⟨same, clients⟩ := twins
      exact ⟨by simp only [Service.after, onDispatcher, same], clients⟩
  | reorder turns calls =>
      obtain ⟨same, clients⟩ := twins
      exact ⟨by simp only [Service.after, onDispatcher, same], clients⟩
  | host action =>
      obtain ⟨same, clients⟩ := twins
      exact ⟨by simp only [Service.after, same], clients⟩

theorem follow (twins : Twins client alone graph) (actions : List Action) :
    Option.Rel (Twins client) (alone.follow actions) (graph.follow actions) := by
  induction actions generalizing alone graph with
  | nil => exact .some twins
  | cons action rest ih =>
      rw [follow_cons, follow_cons, twins.permits action]
      split
      · exact ih (twins.after action)
      · exact .none

theorem replies (twins : Twins client alone graph) :
    alone.replies = graph.replies.modify client (Option.map Reply.alone) := by
  obtain ⟨_, _, _, pair⟩ := twins
  exact pair.replies

end Twins

variable {service : Service} {arguments : List Bytes} {op : Op} {loadCount persistCount : Bytes}

theorem twins_command
    (rephrased : Dag.Rephrased service.engine.keyspace arguments op loadCount persistCount)
    (giveUpAt : Nat) :
    Twins service.clients.length (service.after (.command arguments giveUpAt))
      (service.after (.command (Dag.graphWords op loadCount persistCount arguments) giveUpAt)) := by
  have begun := Engine.twins_begin rephrased
  refine ⟨begun.engine, _, _, List.getElem?_concat_length, ?_, begun.sessions giveUpAt⟩
  simp only [after]
  rw [List.set_append_right _ _ (Nat.le_refl _), Nat.sub_self, List.set_cons_zero]

/-- A command and its graph form come to the same store, by what the store does itself and by
whatever clients, workers, the clock and the host do next. All replies are the same, but for
theirs: the command has the one that the list of its graph form comes to. -/
structure AgreesWithGraph (service : Service) (arguments graphForm : List Bytes) : Prop where
  executed : ∀ patience, service.engine.execute patience arguments =
    ((service.engine.execute patience graphForm).1,
      (service.engine.execute patience graphForm).2.map Reply.alone)
  followed : ∀ giveUpAt actions,
    ((service.after (.command arguments giveUpAt)).follow actions).map
        (fun reached => (reached.engine, reached.replies)) =
      ((service.after (.command graphForm giveUpAt)).follow actions).map
        fun reached => (reached.engine,
          reached.replies.modify service.clients.length (Option.map Reply.alone))

theorem agrees_with_graph
    (rephrased : Dag.Rephrased service.engine.keyspace arguments op loadCount persistCount) :
    service.AgreesWithGraph arguments (Dag.graphWords op loadCount persistCount arguments) where
  executed := Engine.execute_rephrased rephrased
  followed := by
    intro giveUpAt actions
    have both := (twins_command rephrased giveUpAt).follow actions
    generalize follow _ actions = alone at both ⊢
    generalize follow _ actions = graph at both ⊢
    cases both with
    | none => rfl
    | some twins => rw [Option.map_some, Option.map_some, twins.engine, twins.replies]

def Sample.failsToPersist (service : Service) : Bool :=
  match service.replies[next]? with
  | some (some (.array [own, .error _])) => !own.isError
  | _ => false

def Sample.rephrases (words inputs outputs : List String) (service : Service) : Bool :=
  let arguments := words.map Text.encode
  match ModelRun.ofExecute service.engine.keyspace arguments with
  | .ok run =>
      decide (run.inputs = inputs) && decide (run.outputs = outputs) &&
        ((service.after (.command (Dag.graphWords (.model run) (Text.encode "2")
          (Text.encode "2") arguments) Dispatcher.patience)).follow turn).any failsToPersist
  | .error _ => false

theorem Sample.exists_run_of_rephrases {words inputs outputs : List String}
    (checked : rephrases words inputs outputs service = true) :
    ∃ run, ModelRun.ofExecute service.engine.keyspace (words.map Text.encode) = .ok run ∧
      run.inputs = inputs ∧ run.outputs = outputs ∧
      ((service.after (.command (Dag.graphWords (.model run) (Text.encode "2") (Text.encode "2")
        (words.map Text.encode)) Dispatcher.patience)).follow turn).any failsToPersist = true := by
  unfold rephrases at checked
  dsimp only at checked
  split at checked
  · rename_i run read
    simp only [Bool.and_eq_true, decide_eq_true_eq] at checked
    obtain ⟨⟨loads, persists⟩, fails⟩ := checked
    exact ⟨run, read, loads, persists, fails⟩
  · cases checked

/-- One of two outputs cannot be put; the graph form has that in its list. -/
theorem pair_agrees_with_its_graph : ∃ (service : Service) (op : Op) (arguments : List Bytes),
    Dag.Rephrased service.engine.keyspace arguments op (Text.encode "2") (Text.encode "2") ∧
      ((service.after (.command (Dag.graphWords op (Text.encode "2") (Text.encode "2") arguments)
        Dispatcher.patience)).follow Sample.turn).any Sample.failsToPersist = true ∧
      service.AgreesWithGraph arguments
        (Dag.graphWords op (Text.encode "2") (Text.encode "2") arguments) := by
  let words := ["AI.MODELEXECUTE", "pair", "INPUTS", "2", "a", "b", "OUTPUTS", "2", "out", "host",
    "TIMEOUT", "50"]
  obtain ⟨_, service, _, checked⟩ := History.exists_run (.create .initial false) Sample.opening
    (fun _ service => Sample.rephrases words ["a", "b"] ["out", "host"] service) (by decide +kernel)
  obtain ⟨run, read, loads, persists, fails⟩ := Sample.exists_run_of_rephrases checked
  have count : Decimal.positive? (Text.encode "2") = some 2 := by decide +kernel
  have rephrased : Dag.Rephrased service.engine.keyspace (words.map Text.encode) (.model run)
      (Text.encode "2") (Text.encode "2") := by
    have inputs : (Op.model run).inputs = ["a", "b"] := loads
    have outputs : (Op.model run).outputs = ["out", "host"] := persists
    constructor
    · exact .model (by decide +kernel) read
    · rw [outputs]
      decide
    · simp [inputs]
    · rw [inputs]
      decide
    · rw [outputs]
      decide
    · decide +kernel
    · intro _
      rw [inputs, count]
      rfl
    · intro _
      rw [outputs, count]
      rfl
  exact ⟨service, .model run, words.map Text.encode, rephrased, fails, agrees_with_graph rephrased⟩

end Service

end InferenceStore
