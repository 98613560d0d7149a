import InferenceStore.Proofs.Dag.Neighbours
import InferenceStore.Proofs.Encoding.Recovery
import InferenceStore.Proofs.Service.Alone
import InferenceStore.Proofs.Service.Steps
import InferenceStore.Proofs.Service.Twins

/-
Independent neighbours of a graph commute. A graph that runs while nothing else goes on is told by
one course, whatever the workers do, and the graph with two independent neighbours exchanged by that
course with their accounts exchanged. So the replies are exchanged, and keys and books end up the
same; and if the one graph is answered, there is always a way for the other to be answered too.
-/

namespace InferenceStore

open Command

namespace Service

variable {origin engine : Engine} {dag : Dag} {loaded context bound final ending : Context}
  {client giveUpAt : Nat} {deeds whole : List Deed} {op : Op} {ops rest : List Op}
  {request : Request} {service : Service}

/-! ### A way on -/

theorem Reached.isServedAlone
    (reached : Reached origin dag loaded client deeds bound op rest request service)
    (course : Course loaded whole ending) (alone : ∀ deed ∈ whole, deed.RanAlone)
    (ops : dag.ops = whole.map Deed.op) : request.isServedAlone = true := by
  have told : deeds.map Deed.op ++ op :: rest = whole.map Deed.op ++ [] := by
    rw [← reached.ops, ops, List.append_nil]
  have agree := reached.course.agree_of_ranAlone course told reached.alone alone
  have longer : deeds.length < whole.length := by
    have length := congrArg List.length told
    simp only [List.length_append, List.length_map, List.length_cons, List.length_nil] at length
    omega
  rcases reached.course.prefix_or_prefix course told agree with ⟨behind, rfl⟩ | shorter
  · obtain ⟨middle, front, back⟩ := Course.split course
    cases reached.course.final_unique front
    rw [List.map_append, List.append_assoc, List.append_nil] at told
    cases behind with
    | nil => cases List.append_cancel_left told
    | cons deed more =>
        obtain ⟨same, _⟩ := List.cons_eq_cons.mp (List.append_cancel_left told)
        obtain ⟨_, _, one, _⟩ := Course.uncons back
        have asked := one.asked?_eq
        rw [← same, Op.asked?_of_request reached.step] at asked
        obtain ⟨call, called, run⟩ := Option.map_eq_some_iff.mp asked
        injection run with target run
        injection run with inputs _
        obtain ⟨served, _⟩ := alone deed
          (List.mem_append_right _ (List.mem_cons_self ..)) call called
        rw [target, inputs] at served
        exact served
  · exact absurd shorter.length_le (Nat.not_le.mpr longer)

end Service

theorem Engine.opsLeft_resume (engine : Engine) (execution : Execution)
    (result : Outcome (List Tensor)) (giveUpAt : Nat) :
    (Session.ofProgress giveUpAt (engine.resume execution result).2).opsLeft ≤
      execution.rest.length := by
  have goOn (context : Context) (replies : List Reply) :
      (Session.ofProgress giveUpAt (engine.runOps execution.dag execution.deadline context replies
        execution.rest).2).opsLeft ≤ execution.rest.length := by
    obtain ⟨deeds, final, _, turn⟩ :=
      engine.runOps_turn execution.dag execution.deadline context replies execution.rest
    generalize engine.runOps execution.dag execution.deadline context replies execution.rest =
      outcome at turn
    cases turn with
    | ended => exact Nat.zero_le _
    | asks _ told =>
        rw [told, List.length_append, List.length_cons]
        exact Nat.le_add_left ..
  unfold Engine.resume
  dsimp only
  split
  · exact goOn ..
  · exact Nat.zero_le _
  · exact goOn ..

namespace Service

variable {origin engine : Engine} {dag : Dag} {loaded context bound final ending : Context}
  {client giveUpAt : Nat} {deeds whole : List Deed} {op : Op} {ops rest : List Op}
  {request : Request} {service : Service}

def opsLeft (service : Service) (client : Nat) : Nat :=
  (service.clients[client]?).elim 0 Session.opsLeft

theorem Stage.resumed {records : Records} (stage : Stage origin dag loaded client service)
    (inTime : ∀ op ∈ dag.ops, op.InTime) (sound : service.engine.Sound records)
    {execution : Execution} {result : Outcome (List Tensor)}
    (waits : service.clients[client]? = some (.waiting execution giveUpAt))
    (returned : service.engine.dispatcher.result? execution.request = some result) :
    ∃ later, Alone client service later ∧ Stage origin dag loaded client later ∧
      later.opsLeft client < service.opsLeft client := by
  have permitted : service.permits (.resume client) = true := by
    rw [permits, waits]
    exact Option.isSome_iff_exists.mpr ⟨result, returned⟩
  refine ⟨service.resume client, Alone.refl.step (.resume client) (beq_self_eq_true client)
    permitted, stage.resume inTime sound permitted, ?_⟩
  rw [clients_resume waits returned, opsLeft, opsLeft, set_of_waiting waits, waits]
  exact Nat.lt_succ_of_le (service.engine.opsLeft_resume execution result giveUpAt)

/-- Whoever waits goes on sooner or later, if every run of the graph is served alone. -/
theorem Stage.onward {config : Config} {clustered : Bool} {history : History}
    (run : Run (.create config clustered) history service) (inTime : ∀ op ∈ dag.ops, op.InTime)
    (stage : Stage origin dag loaded client service) (course : Course loaded whole ending)
    (alone : ∀ deed ∈ whole, deed.RanAlone) (ops : dag.ops = whole.map Deed.op) :
    (∃ reply, service.clients[client]? = some (.answered reply)) ∨
      ∃ later, Alone client service later ∧ Stage origin dag loaded client later ∧
        later.opsLeft client < service.opsLeft client := by
  obtain ⟨_, sound⟩ := run.sound
  have come := stage
  cases stage with
  | ended ended => exact Or.inl ⟨_, ended.session⟩
  | served reached idle _ result =>
      obtain ⟨_, session⟩ := reached.session
      exact Or.inr (come.resumed inTime sound.engine session result)
  | waits reached attends unknown books =>
      obtain ⟨_, session⟩ := reached.session
      have served := reached.isServedAlone course alone ops
      obtain ⟨dispatcher, works, serves⟩ :=
        attends.canServe reached.patient served sound.engine.manned
      have onward : Alone client service (service.onDispatcher fun _ => dispatcher) := .works works
      obtain ⟨_, reachable⟩ := onward.run run
      obtain ⟨_, soundToo⟩ := reachable.sound
      have stageToo : Stage origin dag loaded client (service.onDispatcher fun _ => dispatcher) :=
        .of_served reached books served serves
      obtain ⟨later, further, stageToo, fewer⟩ :=
        stageToo.resumed inTime soundToo.engine session serves.result?
      exact Or.inr ⟨later, onward.trans further, stageToo, fewer⟩

/-- From every stage there is a way to an answer, in as many turns as operations are left. -/
theorem Stage.exists_answered {config : Config} {clustered : Bool} {history : History}
    (run : Run (.create config clustered) history service) (inTime : ∀ op ∈ dag.ops, op.InTime)
    (stage : Stage origin dag loaded client service) (course : Course loaded whole ending)
    (alone : ∀ deed ∈ whole, deed.RanAlone) (ops : dag.ops = whole.map Deed.op) :
    ∃ later reply, Alone client service later ∧
      later.clients[client]? = some (.answered reply) := by
  induction left : service.opsLeft client using Nat.strongRecOn generalizing service history with
  | ind left ih =>
      rcases stage.onward run inTime course alone ops with
        ⟨reply, answered⟩ | ⟨later, onward, stageToo, fewer⟩
      · exact ⟨service, reply, .refl, answered⟩
      · obtain ⟨_, reached⟩ := onward.run run
        obtain ⟨final, reply, further, answered⟩ :=
          ih _ (left ▸ fewer) reached stageToo rfl
        exact ⟨final, reply, onward.trans further, answered⟩

end Service

/-! ### Exchanged neighbours -/

def Reply.exchange (position : Nat) : Reply → Reply
  | .array items => .array (exchangeAt position items)
  | reply => reply

/-- Counters that are the same, apart from durations. -/
structure Counters.SameCounts (counters other : Counters) : Prop where
  samples : other.samples = counters.samples
  calls : other.calls = counters.calls
  errors : other.errors = counters.errors

/-- The replies are those of the other graph with two neighbours exchanged, and the stores end up
with the same keys, and with the same books apart from durations. -/
structure Engine.EndsExchanged (position : Nat) (engine : Engine) (reply : Reply) (other : Engine)
    (replyToo : Reply) : Prop where
  replies : replyToo = reply.exchange position
  keyspace : other.keyspace = engine.keyspace
  books : ∀ id,
    (engine.dispatcher.ledger.counters id).SameCounts (other.dispatcher.ledger.counters id)

theorem Deed.ranAlone_of_accounts {deeds others : List Deed}
    (accounts : others.map account = deeds.map account) (alone : ∀ deed ∈ deeds, deed.RanAlone) :
    ∀ deed ∈ others, deed.RanAlone := by
  intro deed member call called
  have among : deed.account ∈ deeds.map account := by
    rw [← accounts]
    exact List.mem_map_of_mem member
  obtain ⟨twin, inDeeds, same⟩ := List.mem_map.mp among
  injection same with op same
  injection same with calls _
  rw [← op]
  exact alone twin inDeeds call (calls.trans called)

theorem Dag.reply_exchange {dag : Dag} (several : dag.singleOp = false) (front rest : List Reply)
    (first second : Reply) (failures : List Error) :
    (dag.exchange front.length).reply (front ++ second :: first :: rest) failures =
      (dag.reply (front ++ first :: second :: rest) failures).exchange front.length := by
  have severalToo : (dag.exchange front.length).singleOp = false := several
  rw [Dag.reply, Dag.reply, several, severalToo]
  simp only [Bool.false_eq_true, if_false, Reply.exchange, List.append_assoc, List.cons_append,
    exchangeAt_append]

namespace Service

variable {origin : Engine} {dag : Dag} {loaded final ending : Context} {client position : Nat}
  {deeds others : List Deed} {first second : Op} {service other : Service}

/-- The graph with two independent neighbours exchanged has a course too, told by the same
accounts in their new order. -/
theorem Ended.exists_exchanged (ended : Ended origin dag loaded client deeds final service)
    (here : dag.ops[position]? = some first) (behind : dag.ops[position + 1]? = some second)
    (apart : first.Independent second) :
    ∃ front former latter rest others ending,
      deeds = front ++ former :: latter :: rest ∧ front.length = position ∧
        Course loaded others ending ∧ (∀ deed ∈ others, deed.RanAlone) ∧
        others.map Deed.account = (front ++ latter :: former :: rest).map Deed.account ∧
        (dag.exchange position).ops = others.map Deed.op ∧ final.Same ending := by
  rw [ended.ops, List.getElem?_map] at here behind
  obtain ⟨former, placed, rfl⟩ := Option.map_eq_some_iff.mp here
  obtain ⟨latter, placedToo, rfl⟩ := Option.map_eq_some_iff.mp behind
  obtain ⟨front, rest, parts, rfl⟩ := exists_neighbours placed placedToo
  obtain ⟨others, ending, course, accounts, same⟩ := Course.exchanged (parts ▸ ended.course) apart
  have alone : ∀ deed ∈ front ++ latter :: former :: rest, deed.RanAlone := by
    intro deed member
    apply ended.alone deed
    rw [parts, ← mem_exchangeAt, exchangeAt_append]
    exact member
  refine ⟨front, former, latter, rest, others, ending, parts, rfl, course,
    Deed.ranAlone_of_accounts accounts alone, accounts, ?_, same⟩
  have ops : others.map Deed.op = (front ++ latter :: former :: rest).map Deed.op := by
    have projected := congrArg (List.map Prod.fst) accounts
    rwa [List.map_map, List.map_map] at projected
  rw [ops, Dag.exchange, ended.ops, parts, ← map_exchangeAt, exchangeAt_append]

theorem Ended.unique (ended : Ended origin dag loaded client deeds final service)
    (course : Course loaded others ending) (alone : ∀ deed ∈ others, deed.RanAlone)
    (ops : dag.ops = others.map Deed.op) : deeds = others ∧ final = ending := by
  have told : deeds.map Deed.op = others.map Deed.op := ended.ops.symm.trans ops
  have agree := ended.course.agree_of_ranAlone course (congrArg (· ++ []) told) ended.alone alone
  exact ended.course.unique course told agree

theorem Ended.endsExchanged (ended : Ended origin dag loaded client deeds final service)
    (endedToo : Ended origin (dag.exchange position) loaded client others ending other)
    (several : dag.singleOp = false) (here : dag.ops[position]? = some first)
    (behind : dag.ops[position + 1]? = some second) (apart : first.Independent second) :
    service.engine.EndsExchanged position
      (dag.reply (deeds.map Deed.reply) (persist final origin.keyspace dag.persist).2)
      other.engine
      ((dag.exchange position).reply (others.map Deed.reply)
        (persist ending origin.keyspace dag.persist).2) := by
  obtain ⟨front, former, latter, rest, others, ending, rfl, rfl, course, alone, accounts, ops,
    same⟩ := ended.exists_exchanged here behind apart
  obtain ⟨rfl, rfl⟩ := endedToo.unique course alone ops
  have replies : others.map Deed.reply =
      (front ++ latter :: former :: rest).map Deed.reply := by
    have projected := congrArg (List.map fun account => account.2.2) accounts
    rwa [List.map_map, List.map_map] at projected
  have calls : others.filterMap Deed.call =
      (front ++ latter :: former :: rest).filterMap Deed.call := by
    have projected := congrArg (List.filterMap fun account => account.2.1) accounts
    rwa [List.filterMap_map, List.filterMap_map] at projected
  constructor
  · have exchanged := Dag.reply_exchange several (front.map Deed.reply) (rest.map Deed.reply)
      former.reply latter.reply (persist final origin.keyspace dag.persist).2
    rw [List.length_map] at exchanged
    rw [← same.persist, replies, List.map_append, List.map_append]
    exact exchanged
  · rw [ended.keyspace, endedToo.keyspace, same.persist]
    rfl
  · intro id
    have swapped : (front ++ latter :: former :: rest).Perm (front ++ former :: latter :: rest) :=
      (List.Perm.swap ..).append_left front
    have books := Ledger.counters_book_perm (swapped.filterMap Deed.call)
    rw [ended.books, endedToo.books, calls, books origin.dispatcher.ledger id]
    exact ⟨rfl, rfl, rfl⟩

/-! ### Answers -/

/-- A client that sends the command, with nothing else going on, is answered in the end. -/
structure Answers (service : Service) (arguments : List Bytes) (giveUpAt : Nat) (reply : Reply)
    (later : Service) : Prop where
  alone : Alone service.clients.length (service.after (.command arguments giveUpAt)) later
  answered : later.clients[service.clients.length]? = some (.answered reply)

variable {config : Config} {clustered : Bool} {history : History} {arguments : List Bytes}
  {flavor : Option DagFlavor} {giveUpAt : Nat} {reply : Reply} {cause : Error}

theorem Alone.of_refusal
    (alone : Alone service.clients.length (service.after (.command arguments giveUpAt)) other)
    (idle : service.engine.dispatcher.Idle)
    (commanded : Dag.Commanded service.engine.keyspace arguments flavor dag)
    (refused : service.engine.refusal? dag = some cause) :
    other.clients[service.clients.length]? = some (.answered (.error cause)) ∧
      other.engine.keyspace = service.engine.keyspace ∧
      other.engine.dispatcher.ledger = service.engine.dispatcher.ledger := by
  have begins := commanded.begins.trans (Engine.start_of_refusal refused)
  have answered : (service.after (.command arguments giveUpAt)).clients[service.clients.length]? =
      some (.answered (.error cause)) := by
    rw [Service.after, List.getElem?_append_right (Nat.le_refl _), Nat.sub_self, begins]
    rfl
  have kept : (service.after (.command arguments giveUpAt)).engine = service.engine :=
    congrArg Prod.fst begins
  obtain ⟨session, keyspace, _, quiet⟩ := alone.of_answered answered (kept ▸ idle)
  exact ⟨session, keyspace.trans (congrArg Engine.keyspace kept), quiet.2.trans (by rw [kept])⟩

theorem Answers.ended (answers : Answers service arguments giveUpAt reply other)
    (run : Run (.create config clustered) history service)
    (idle : service.engine.dispatcher.Idle)
    (commanded : Dag.Commanded service.engine.keyspace arguments flavor dag)
    (patient : dag.timeout = none) (inTime : ∀ op ∈ dag.ops, op.InTime)
    (loading : loadContext service.engine.keyspace .empty dag.load = .ok loaded)
    (accepted : service.engine.refusal? dag = none) :
    ∃ deeds final, Ended service.engine dag loaded service.clients.length deeds final other ∧
      reply = dag.reply (deeds.map Deed.reply)
        (persist final service.engine.keyspace dag.persist).2 := by
  have begun := run.stage_begun idle commanded patient loading accepted giveUpAt
  have onward := run.step (.command arguments giveUpAt) rfl
  cases answers.alone.stage onward inTime begun with
  | waits reached =>
      obtain ⟨_, session⟩ := reached.session
      cases session.symm.trans answers.answered
  | served reached =>
      obtain ⟨_, session⟩ := reached.session
      cases session.symm.trans answers.answered
  | ended ended =>
      refine ⟨_, _, ended, ?_⟩
      cases ended.session.symm.trans answers.answered
      rfl

/-- A graph that has a course on which its runs are served alone is answered sooner or later. -/
theorem Alone.exists_answer
    (alone : Alone service.clients.length (service.after (.command arguments giveUpAt)) other)
    (run : Run (.create config clustered) history service)
    (idle : service.engine.dispatcher.Idle)
    (commanded : Dag.Commanded service.engine.keyspace arguments flavor dag)
    (patient : dag.timeout = none) (inTime : ∀ op ∈ dag.ops, op.InTime)
    (goesOn : ∀ loaded, loadContext service.engine.keyspace .empty dag.load = .ok loaded →
      service.engine.refusal? dag = none →
      ∃ whole ending, Course loaded whole ending ∧ (∀ deed ∈ whole, deed.RanAlone) ∧
        dag.ops = whole.map Deed.op) :
    ∃ reply later, Alone service.clients.length other later ∧
      service.Answers arguments giveUpAt reply later := by
  cases refusal : service.engine.refusal? dag with
  | some cause =>
      have session := (alone.of_refusal idle commanded refusal).1
      exact ⟨_, other, .refl, alone, session⟩
  | none =>
      obtain ⟨loaded, loading, _⟩ := Engine.start_of_accepted refusal
      obtain ⟨whole, ending, course, ranAlone, ops⟩ := goesOn loaded loading refusal
      have onward := run.step (.command arguments giveUpAt) rfl
      have begun := run.stage_begun idle commanded patient loading refusal giveUpAt
      obtain ⟨_, reached⟩ := alone.run onward
      obtain ⟨later, reply, further, session⟩ :=
        (alone.stage onward inTime begun).exists_answered reached inTime course ranAlone ops
      exact ⟨reply, later, further, alone.trans further, session⟩

/-- Two commands that a service reads while nothing goes on: a graph without a deadline, none of
whose runs fails as if it had expired, and the graph with two independent neighbours exchanged. -/
structure Exchangeable (service : Service) (arguments exchanged : List Bytes) (dag : Dag)
    (position : Nat) (first second : Op) : Prop where
  run : ∃ config clustered history, Run (.create config clustered) history service
  idle : service.engine.dispatcher.Idle
  commanded : ∃ flavor, Dag.Commanded service.engine.keyspace arguments (some flavor) dag
  exchanged : ∃ flavor,
    Dag.Commanded service.engine.keyspace exchanged (some flavor) (dag.exchange position)
  patient : dag.timeout = none
  inTime : ∀ op ∈ dag.ops, op.InTime
  here : dag.ops[position]? = some first
  behind : dag.ops[position + 1]? = some second
  apart : first.Independent second

namespace Exchangeable

variable {exchanged : List Bytes} {giveUpAtToo : Nat} {replyToo : Reply}
  {later laterToo state : Service}

theorem inTimeToo (both : service.Exchangeable arguments exchanged dag position first second) :
    ∀ op ∈ (dag.exchange position).ops, op.InTime :=
  fun op member => both.inTime op (mem_exchangeAt.mp member)

theorem ends (both : service.Exchangeable arguments exchanged dag position first second)
    (answers : service.Answers arguments giveUpAt reply later)
    (answersToo : service.Answers exchanged giveUpAtToo replyToo laterToo) :
    later.engine.EndsExchanged position reply laterToo.engine replyToo := by
  obtain ⟨_, _, _, run⟩ := both.run
  obtain ⟨_, commanded⟩ := both.commanded
  obtain ⟨_, commandedToo⟩ := both.exchanged
  have refusals := Dag.refusal?_exchange service.engine position dag
  cases refusal : service.engine.refusal? dag with
  | some cause =>
      obtain ⟨session, keyspace, ledger⟩ := answers.alone.of_refusal both.idle commanded refusal
      obtain ⟨sessionToo, keyspaceToo, ledgerToo⟩ :=
        answersToo.alone.of_refusal both.idle commandedToo (refusals.trans refusal)
      cases session.symm.trans answers.answered
      cases sessionToo.symm.trans answersToo.answered
      refine ⟨rfl, keyspaceToo.trans keyspace.symm, fun id => ?_⟩
      rw [ledger, ledgerToo]
      exact ⟨rfl, rfl, rfl⟩
  | none =>
      obtain ⟨loaded, loading, _⟩ := Engine.start_of_accepted refusal
      obtain ⟨deeds, final, ended, rfl⟩ :=
        answers.ended run both.idle commanded both.patient both.inTime loading refusal
      obtain ⟨others, ending, endedToo, rfl⟩ :=
        answersToo.ended run both.idle commandedToo both.patient both.inTimeToo loading
          (refusals.trans refusal)
      exact ended.endsExchanged endedToo commanded.singleOp_eq both.here both.behind both.apart

theorem answered (both : service.Exchangeable arguments exchanged dag position first second)
    (answers : service.Answers arguments giveUpAt reply later)
    (alone : Alone service.clients.length (service.after (.command exchanged giveUpAtToo)) state) :
    ∃ replyToo laterToo, Alone service.clients.length state laterToo ∧
      service.Answers exchanged giveUpAtToo replyToo laterToo := by
  obtain ⟨_, _, _, run⟩ := both.run
  obtain ⟨_, commanded⟩ := both.commanded
  obtain ⟨_, commandedToo⟩ := both.exchanged
  refine alone.exists_answer run both.idle commandedToo both.patient both.inTimeToo ?_
  intro loaded loading accepted
  have refusals := Dag.refusal?_exchange service.engine position dag
  obtain ⟨deeds, final, ended, rfl⟩ :=
    answers.ended run both.idle commanded both.patient both.inTime loading
      (refusals.symm.trans accepted)
  obtain ⟨_, _, _, _, others, ending, _, _, course, ranAlone, _, ops, _⟩ :=
    ended.exists_exchanged both.here both.behind both.apart
  exact ⟨others, ending, course, ranAlone, ops⟩

theorem goesOn (both : service.Exchangeable arguments exchanged dag position first second)
    (served : ∀ op ∈ dag.ops, op.IsServed)
    (alone : Alone service.clients.length (service.after (.command arguments giveUpAt)) state) :
    ∃ reply later, Alone service.clients.length state later ∧
      service.Answers arguments giveUpAt reply later := by
  obtain ⟨_, _, _, run⟩ := both.run
  obtain ⟨_, commanded⟩ := both.commanded
  exact alone.exists_answer run both.idle commanded both.patient both.inTime fun loaded _ _ =>
    Course.exists_ranAlone both.inTime served loaded

end Exchangeable

/-- The command with two neighbours exchanged is read too, as the graph with the two exchanged. With
nothing else going on, and however workers and the clock act, what the two come to differs by the
exchange alone. If all runs are served alone, the one can be answered from wherever it has come to;
and if it was answered, so can the other. -/
structure Commutes (service : Service) (flavor : DagFlavor) (arguments : List Bytes) (dag : Dag)
    (position : Nat) : Prop where
  named : Command.name (Dag.exchangeWords position arguments) = flavor.name
  read : Dag.ofArguments flavor service.engine.keyspace (Dag.exchangeWords position arguments) =
    .ok (dag.exchange position)
  ends : ∀ giveUpAt giveUpAtToo reply replyToo later laterToo,
    service.Answers arguments giveUpAt reply later →
    service.Answers (Dag.exchangeWords position arguments) giveUpAtToo replyToo laterToo →
    later.engine.EndsExchanged position reply laterToo.engine replyToo
  goesOn : (∀ op ∈ dag.ops, op.IsServed) → ∀ giveUpAt state,
    Alone service.clients.length (service.after (.command arguments giveUpAt)) state →
    ∃ reply later, Alone service.clients.length state later ∧
      service.Answers arguments giveUpAt reply later
  answered : ∀ giveUpAt giveUpAtToo reply later state,
    service.Answers arguments giveUpAt reply later →
    Alone service.clients.length
      (service.after (.command (Dag.exchangeWords position arguments) giveUpAtToo)) state →
    ∃ replyToo laterToo, Alone service.clients.length state laterToo ∧
      service.Answers (Dag.exchangeWords position arguments) giveUpAtToo replyToo laterToo

/-- Independent neighbours of a graph commute, whether they succeed, fail or cannot run, if the
graph has no deadline and its models and scripts are small arithmetic ones. -/
theorem independent_neighbours_commute {flavor : DagFlavor}
    (run : Run (.create config clustered) history service)
    (idle : service.engine.dispatcher.Idle) (named : Command.name arguments = flavor.name)
    (read : Dag.ofArguments flavor service.engine.keyspace arguments = .ok dag)
    (patient : dag.timeout = none)
    (arithmetic : ∀ op ∈ dag.ops, ∀ target, op.target? = some target → target.IsArithmetic)
    (here : dag.ops[position]? = some first) (behind : dag.ops[position + 1]? = some second)
    (apart : first.Independent second) : service.Commutes flavor arguments dag position := by
  obtain ⟨namedToo, readToo⟩ := Dag.ofArguments_exchangeWords named read here behind apart.onward
  have inTime : ∀ op ∈ dag.ops, op.InTime := fun op member target runs inputs =>
    (arithmetic op member target runs).invoke inputs _
  have both : service.Exchangeable arguments (Dag.exchangeWords position arguments) dag position
      first second :=
    { run := ⟨_, _, _, run⟩
      idle := idle
      commanded := ⟨flavor, .flavored named read⟩
      exchanged := ⟨flavor, .flavored namedToo readToo⟩
      patient := patient
      inTime := inTime
      here := here
      behind := behind
      apart := apart }
  exact
    { named := namedToo
      read := readToo
      ends := fun _ _ _ _ _ _ answers answersToo => both.ends answers answersToo
      goesOn := fun served _ _ alone => both.goesOn served alone
      answered := fun _ _ _ _ _ answers alone => both.answered answers alone }

end Service

/-! ### Stores of small arithmetic models -/

def Value.IsArithmetic : Value → Prop
  | .model m => m.handle.IsArithmetic
  | .script s => s.handle.IsArithmetic
  | _ => True

/-- All backends are of small arithmetic models, and so is what they have loaded. -/
structure Engine.IsArithmetic (engine : Engine) : Prop where
  backends : ∀ kind registration, engine.registry.get kind = .ok registration →
    ∃ own, registration.backend = Arithmetic.backend own
  values : ∀ key value, engine.keyspace.get? key = some value → value.IsArithmetic

namespace Engine.IsArithmetic

variable {engine later : Engine} {dag : Dag}

theorem of_same (arithmetic : engine.IsArithmetic) (registry : later.registry = engine.registry)
    (keyspace : later.keyspace = engine.keyspace) : later.IsArithmetic :=
  ⟨registry ▸ arithmetic.backends, keyspace ▸ arithmetic.values⟩

theorem targets (arithmetic : engine.IsArithmetic)
    (held : ∀ op ∈ dag.ops, op.Held engine.keyspace) :
    ∀ op ∈ dag.ops, ∀ target, op.target? = some target → target.IsArithmetic := by
  intro op member target runs
  have here := held op member
  cases op with
  | model run =>
      cases runs
      obtain ⟨key, found⟩ := here.held
      exact arithmetic.values key _ found
  | script run =>
      cases runs
      obtain ⟨key, found⟩ := here
      exact arithmetic.values key _ found
  | tensorSet set => cases runs
  | tensorGet get => cases runs

theorem of_load (arithmetic : engine.IsArithmetic) {key : String}
    {loaded : Engine × Outcome Value} (load : engine.Load key loaded) :
    loaded.1.IsArithmetic ∧ ∀ value, loaded.2 = .ok value → value.IsArithmetic := by
  refine ⟨arithmetic.of_same load.registry load.keeps.keyspace, fun value gives => ?_⟩
  cases load with
  | fails => cases gives
  | tensor =>
      cases gives
      trivial
  | model definition blob =>
      obtain ⟨model, loads, rfl⟩ := Outcome.map_eq_ok.mp gives
      obtain ⟨registration, handle, registered, given, rfl⟩ := Model.load_eq_ok_iff.mp loads
      obtain ⟨kind, backend⟩ := arithmetic.backends _ _ registered
      exact ⟨kind, _, _, backend ▸ given⟩
  | script definition =>
      obtain ⟨script, loads, rfl⟩ := Outcome.map_eq_ok.mp gives
      obtain ⟨registration, handle, _, registered, given, _, rfl⟩ :=
        Script.load_eq_ok_iff.mp loads
      obtain ⟨kind, backend⟩ := arithmetic.backends _ _ registered
      exact ⟨kind, _, _, backend ▸ given⟩

theorem of_puts (arithmetic : engine.IsArithmetic) {step : Engine × Outcome Reply}
    (puts : engine.Puts step) : step.1.IsArithmetic := by
  obtain ⟨key, ⟨loaded, cause | value⟩, load, rfl⟩ := puts
  · exact (arithmetic.of_load load).1
  · obtain ⟨ready, known⟩ := arithmetic.of_load load
    by_cases takes : loaded.keyspace.Takes key value
    · rw [finish, install_of_takes takes]
      refine ⟨registry_readyFor loaded value ▸ ready.backends, fun other held found => ?_⟩
      rw [Keyspace.get?_set] at found
      split at found
      · cases found
        exact known value rfl
      · exact ready.values other held found
    · rw [finish, install_of_refused takes]
      exact ready.of_same (registry_readyFor ..) (keyspace_readyFor ..)

end Engine.IsArithmetic

/-! ### A failure that commutes -/

namespace Service

theorem Alone.of_follow {client : Nat} {service later : Service} {actions : List Action}
    (own : ∀ action ∈ actions, action.isAlone client = true)
    (followed : service.follow actions = some later) : Alone client service later := by
  induction actions generalizing service with
  | nil =>
      cases followed
      exact .refl
  | cons action rest ih =>
      obtain ⟨here, others⟩ := List.forall_mem_cons.mp own
      rw [follow_cons] at followed
      split at followed
      · rename_i permitted
        exact (Alone.refl.step action here permitted).trans (ih others followed)
      · cases followed

namespace Sample

def arithmetic : Service :=
  ((Service.after ⟨.create .initial false, []⟩ (.host (.register (Arithmetic.backend .onnx)))).after
    (send ["AI.MODELSTORE", "broken", "ONNX", "CPU", "BLOB", "fail"])).after
      (send ["AI.MODELSTORE", "sum", "ONNX", "CPU", "BLOB", "add"])

/-- A graph of a tensor, a run that fails, and a run that is independent of that one. -/
def chained : List Bytes :=
  [ "AI.DAGEXECUTE", "PERSIST", "1", "b", "|>", "AI.TENSORSET", "a", "INT8", "1", "VALUES", "3",
    "|>", "AI.MODELEXECUTE", "broken", "INPUTS", "1", "a", "OUTPUTS", "1", "c",
    "|>", "AI.MODELEXECUTE", "sum", "INPUTS", "2", "a", "a", "OUTPUTS", "1", "b" ].map Text.encode

def twoRuns : List Action :=
  let run := [.work (.look ⟨0, 0⟩), .work (.returnCall ⟨0, 0⟩), .resume 2]
  run ++ run

def readsChained (read : Outcome Dag) : Bool :=
  match read with
  | .ok dag => decide (dag.timeout = none) &&
      decide (dag.ops.map Op.inputs = [[], ["a"], ["a", "a"]]) &&
      decide (dag.ops.map Op.outputs = [["a"], ["c"], ["b"]])
  | .error _ => false

def failsInTheMiddle : Option Session → Bool
  | some (.answered (.array [_, .error _, _])) => true
  | _ => false

theorem exists_of_readsChained {read : Outcome Dag} (checked : readsChained read = true) :
    ∃ dag first second, read = .ok dag ∧ dag.timeout = none ∧ dag.ops[1]? = some first ∧
      dag.ops[2]? = some second ∧ first.Independent second := by
  unfold readsChained at checked
  split at checked
  · rename_i dag
    simp only [Bool.and_eq_true, decide_eq_true_eq] at checked
    obtain ⟨⟨patient, inputs⟩, outputs⟩ := checked
    have reads (place : Nat) := congrArg (·[place]?) inputs
    have writes (place : Nat) := congrArg (·[place]?) outputs
    simp only [List.getElem?_map] at reads writes
    obtain ⟨first, here, firstReads⟩ := Option.map_eq_some_iff.mp (reads 1)
    obtain ⟨second, behind, secondReads⟩ := Option.map_eq_some_iff.mp (reads 2)
    have firstWrites := writes 1
    have secondWrites := writes 2
    rw [here] at firstWrites
    rw [behind] at secondWrites
    refine ⟨dag, first, second, rfl, patient, here, behind, ?_, ?_, ?_⟩
    · rw [Option.some.inj firstWrites, Option.some.inj secondWrites]
      simp
    · rw [Option.some.inj firstWrites, secondReads]
      simp
    · rw [Option.some.inj secondWrites, firstReads]
      simp
  · cases checked

theorem exists_run_arithmetic : ∃ history, Run (.create .initial false) history arithmetic :=
  ⟨_, ((Run.start.step _ rfl).step _ rfl).step _ rfl⟩

theorem isArithmetic_after_send {service : Service} {words : List String}
    (arithmetic : service.engine.IsArithmetic)
    (named : Command.name (words.map Text.encode) = "AI.MODELSTORE") :
    (service.after (send words)).engine.IsArithmetic := by
  have stored := arithmetic.of_puts
    (Engine.putsFree_storeModel service.engine "AI.MODELSTORE" (words.map Text.encode)).puts
  simpa only [send, Service.after, Engine.begin, named, Engine.immediate] using stored

theorem isArithmetic : arithmetic.engine.IsArithmetic := by
  have registered : Engine.IsArithmetic
      (.register (.create .initial false) (Arithmetic.backend .onnx)) := by
    refine ⟨fun kind registration found => ⟨.onnx, ?_⟩, fun _ _ found => by cases found⟩
    cases kind <;> cases found
    rfl
  exact isArithmetic_after_send (isArithmetic_after_send registered (by decide +kernel))
    (by decide +kernel)

end Sample

/-- A run that fails and one that does not are exchanged. -/
theorem failure_commutes_with_run : ∃ dag reply later,
    Dag.ofArguments .execute Sample.arithmetic.engine.keyspace Sample.chained = .ok dag ∧
      Sample.arithmetic.Answers Sample.chained Dispatcher.patience reply later ∧
      Sample.failsInTheMiddle (some (.answered reply)) = true ∧
      Sample.arithmetic.Commutes .execute Sample.chained dag 1 := by
  obtain ⟨history, run⟩ := Sample.exists_run_arithmetic
  have idle : Sample.arithmetic.engine.dispatcher.Idle := by
    have empty : (Sample.arithmetic.engine.dispatcher.queues.all
        fun queue => queue.contents.isEmpty) = true := by decide +kernel
    exact fun queue member => List.isEmpty_iff.mp (List.all_eq_true.mp empty queue member)
  have named : Command.name Sample.chained = DagFlavor.execute.name := by decide +kernel
  obtain ⟨dag, first, second, read, patient, here, behind, apart⟩ :=
    Sample.exists_of_readsChained (show Sample.readsChained (Dag.ofArguments .execute
      Sample.arithmetic.engine.keyspace Sample.chained) = true by decide +kernel)
  have answered : ((Sample.arithmetic.after (.command Sample.chained Dispatcher.patience)).follow
      Sample.twoRuns).any (fun later => Sample.failsInTheMiddle later.clients[2]?) = true := by
    decide +kernel
  obtain ⟨later, followed, fails⟩ := (Option.any_eq_true ..).mp answered
  have alone : Alone 2 (Sample.arithmetic.after (.command Sample.chained Dispatcher.patience))
      later := .of_follow (by decide) followed
  have held := (Dag.Commanded.flavored named read).held
  obtain ⟨reply, session⟩ : ∃ reply, later.clients[2]? = some (.answered reply) := by
    unfold Sample.failsInTheMiddle at fails
    split at fails
    · rename_i same
      exact ⟨_, same⟩
    · cases fails
  refine ⟨dag, reply, later, read, ⟨alone, session⟩, session ▸ fails, ?_⟩
  exact independent_neighbours_commute run idle named read patient
    (Sample.isArithmetic.targets held) here behind apart

end Service

end InferenceStore
