import InferenceStore.Proofs.Dag.Determinism
import InferenceStore.Proofs.Service.Effects
import InferenceStore.Proofs.Service.Submissions

/-
Graphs run on snapshots. Once its tensors are loaded and its models and scripts are found, nothing
that others do in the store reaches a graph but the results of its own requests. So of two runs in
which it starts alike and gets the same results, one asks for no more than the other's beginning,
and when both have replied the operations did the same and the same tensors were to be written.
-/

namespace InferenceStore

namespace Service

structure SoFar (dag : Dag) (loaded : Context) (client : Nat) (own : History)
    (deeds : List Deed) (bound : Context) : Prop where
  course : Course loaded deeds bound
  ops : deeds.map Deed.op <+: dag.ops
  told : ∃ pending, Told client own deeds pending ∧
    dag.asked deeds bound = deeds.filterMap Deed.asked? ++ pending

theorem Halted.soFar {dag : Dag} {loaded bound : Context} {client : Nat} {own : History}
    {deeds : List Deed} {op : Op} {rest : List Op}
    (halted : Halted dag loaded client own deeds bound op rest) :
    SoFar dag loaded client own deeds bound := by
  obtain ⟨course, ops, target, inputs, step, told⟩ := halted
  refine ⟨course, ⟨op :: rest, ops.symm⟩, _, told, ?_⟩
  have here : dag.ops[deeds.length]? = some op := by
    rw [ops, ← List.length_map (f := Deed.op), List.getElem?_append_right (Nat.le_refl _),
      Nat.sub_self, List.getElem?_cons_zero]
  rw [Dag.asked, here, Option.bind_some, Op.asked?_of_request step, Option.toList_some]

theorem Concluded.soFar {dag : Dag} {loaded final : Context} {client : Nat} {own : History}
    {deeds : List Deed} {last : Moment} {failures : List Error} {reply : Reply}
    (concluded : Concluded dag loaded client own deeds final last failures reply) :
    SoFar dag loaded client own deeds final := by
  refine ⟨concluded.course, ⟨[], ?_⟩, [], concluded.told, ?_⟩
  · rw [List.append_nil, concluded.ops]
  · rw [Dag.asked_of_done concluded.ops, List.append_nil]

theorem Life.exists_soFar {dag : Dag} {loaded : Context} {client : Nat} {own : History}
    {session : Session} (life : Life dag loaded client own session)
    (distinct : dag.persist.Nodup) (inTime : session ≠ .answered .timedOut) :
    ∃ deeds bound, SoFar dag loaded client own deeds bound := by
  cases session with
  | waiting execution giveUpAt =>
      cases life with
      | waiting silent halted => exact ⟨_, _, halted.soFar⟩
  | gaveUp =>
      cases life with
      | gaveUp silent halted => exact ⟨_, _, halted.soFar⟩
  | answered reply =>
      obtain ⟨deeds, final, last, failures, concluded⟩ :=
        life.exists_concluded distinct fun same => inTime (congrArg Session.answered same)
      exact ⟨deeds, final, concluded.soFar⟩

/-- A client's graph in one run of a store that started empty: it was not refused, and its time is
not up. -/
structure Watched (history : History) (client : Nat) (begun : Moment) (dag : Dag)
    (session : Session) : Prop where
  run : ∃ config clustered service, Run (.create config clustered) history service ∧
    service.clients[client]? = some session
  sent : ∃ origin, Sends history client begun origin dag
  accepted : begun.before.engine.refusal? dag = none
  inTime : session ≠ .answered .timedOut

/-- What a graph does alike in two runs. -/
structure DoesAlike (dag : Dag) (history history' : History) (client client' : Nat)
    (session session' : Session) : Prop where
  submitted :
    (history.submitted client).map Request.asked <+:
        (history'.submitted client').map Request.asked ∨
      (history'.submitted client').map Request.asked <+:
        (history.submitted client).map Request.asked
  replied : ∀ reply reply', session = .answered reply → session' = .answered reply' →
    ∃ loaded deeds final last failures last' failures',
      Concluded dag loaded client (history.of client) deeds final last failures reply ∧
      Concluded dag loaded client' (history'.of client') deeds final last' failures' reply' ∧
      (history.submitted client).map Request.asked =
        (history'.submitted client').map Request.asked

section Runs

variable {history history' : History} {client client' : Nat} {begun begun' : Moment} {dag : Dag}
  {session session' : Session}

theorem Watched.life (watched : Watched history client begun dag session) :
    dag.persist.Nodup ∧ ∃ loaded,
      loadContext begun.before.engine.keyspace .empty dag.load = .ok loaded ∧
      Life dag loaded client (history.of client) session := by
  obtain ⟨config, clustered, service, run, found⟩ := watched.run
  obtain ⟨origin, sends⟩ := watched.sent
  obtain ⟨arguments, giveUpAt, _, commanded⟩ := sends.command
  obtain ⟨loaded, loading, life⟩ := run.exists_life found sends watched.accepted
  exact ⟨commanded.distinct, loaded, loading, life⟩

theorem SoFar.submitted {loaded bound : Context} {deeds : List Deed}
    (soFar : SoFar dag loaded client (history.of client) deeds bound)
    (watched : Watched history client begun dag session) :
    (history.submitted client).map Request.asked = dag.asked deeds bound := by
  obtain ⟨config, clustered, service, run, _⟩ := watched.run
  obtain ⟨pending, told, asked⟩ := soFar.told
  rw [asked]
  exact run.submitted_eq told

theorem SoFar.delivered {loaded bound : Context} {deeds : List Deed}
    (soFar : SoFar dag loaded client (history.of client) deeds bound) :
    history.delivered client = deeds.filterMap Deed.result? := by
  obtain ⟨pending, told, _⟩ := soFar.told
  exact told.delivered

/-- Two runs of one graph, whatever else happens in them: with the same tensors loaded and the same
results it does the same. -/
theorem runs_on_snapshot (first : Watched history client begun dag session)
    (second : Watched history' client' begun' dag session')
    (load : ∀ name ∈ dag.load, begun.before.engine.keyspace.getTensor name =
      begun'.before.engine.keyspace.getTensor name)
    (agree : Agree (history.delivered client) (history'.delivered client')) :
    DoesAlike dag history history' client client' session session' := by
  obtain ⟨distinct, loaded, loading, life⟩ := first.life
  obtain ⟨_, loaded', loading', life'⟩ := second.life
  rw [← loadContext_congr .empty load, loading] at loading'
  cases loading'
  constructor
  case submitted =>
    obtain ⟨deeds, bound, soFar⟩ := life.exists_soFar distinct first.inTime
    obtain ⟨deeds', bound', soFar'⟩ := life'.exists_soFar distinct second.inTime
    rw [soFar.delivered, soFar'.delivered] at agree
    rw [soFar.submitted first, soFar'.submitted second]
    obtain ⟨rest, ops⟩ := soFar.ops
    obtain ⟨rest', ops'⟩ := soFar'.ops
    rcases soFar.course.prefix_or_prefix soFar'.course (ops.trans ops'.symm) agree with
      ⟨behind, rfl⟩ | ⟨behind, rfl⟩
    · exact Or.inl (soFar.course.asked_prefix soFar'.course soFar'.ops)
    · exact Or.inr (soFar'.course.asked_prefix soFar.course soFar.ops)
  case replied =>
    rintro reply reply' rfl rfl
    obtain ⟨deeds, final, last, failures, concluded⟩ :=
      life.exists_concluded distinct fun same => first.inTime (congrArg Session.answered same)
    obtain ⟨deeds', final', last', failures', concluded'⟩ :=
      life'.exists_concluded distinct fun same => second.inTime (congrArg Session.answered same)
    rw [concluded.soFar.delivered, concluded'.soFar.delivered] at agree
    obtain ⟨rfl, rfl⟩ := concluded.course.unique concluded'.course
      (concluded.ops.symm.trans concluded'.ops) agree
    refine ⟨loaded, deeds, final, last, failures, last', failures', concluded, concluded', ?_⟩
    rw [concluded.soFar.submitted first, concluded'.soFar.submitted second]

end Runs

def Sample.isList : Session → Bool
  | .answered (.array _) => true
  | _ => false

theorem Sample.exists_list {session : Session} (isList : Sample.isList session = true) :
    ∃ replies, session = .answered (.array replies) := by
  unfold Sample.isList at isList
  split at isList
  · exact ⟨_, rfl⟩
  · cases isList

/-- A graph waits while others overwrite a tensor that it loaded and delete its model, or while
they do not. -/
theorem same_beside_overwriting : ∃ (first second : History × Service) (begun : Moment) (dag : Dag)
    (replies replies' : List Reply),
    Watched first.1 Sample.next begun dag (.answered (.array replies)) ∧
      Watched second.1 Sample.next begun dag (.answered (.array replies')) ∧
      (first.2.engine.keyspace.get? "pair").map Value.typeName = some "model" ∧
      (second.2.engine.keyspace.get? "pair").map Value.typeName = none ∧
      DoesAlike dag first.1 second.1 Sample.next Sample.next (.answered (.array replies))
        (.answered (.array replies')) := by
  obtain ⟨history, first, second, run, run', within, within', checked⟩ :=
    History.exists_fork (.create .initial false)
      (Sample.opening ++ [Sample.send ["AI.DAGEXECUTE", "LOAD", "2", "a", "b", "PERSIST", "1", "c",
        "|>", "AI.MODELEXECUTE", "pair", "INPUTS", "2", "a", "b", "OUTPUTS", "2", "c", "d"]])
      Sample.turn
      ([Sample.send ["AI.TENSORSET", "a", "INT8", "1", "VALUES", "9"],
        Sample.send ["AI.MODELDEL", "pair"]] ++ Sample.turn)
      (fun history first second => history.any (·.reads Sample.next .execute) &&
        (first.2.clients[Sample.next]?).any Sample.isList &&
        (second.2.clients[Sample.next]?).any Sample.isList &&
        decide (first.1.delivered Sample.next = second.1.delivered Sample.next) &&
        (first.2.engine.keyspace.get? "pair").map Value.typeName == some "model" &&
        (second.2.engine.keyspace.get? "pair").map Value.typeName == none)
      (by decide +kernel)
  simp only [Bool.and_eq_true, List.any_eq_true, beq_iff_eq, decide_eq_true_eq] at checked
  obtain ⟨⟨⟨⟨⟨⟨begun, happened, reads⟩, answered⟩, answered'⟩, same⟩, stays⟩, gone⟩ := checked
  obtain ⟨session, found, shape⟩ := (Option.any_eq_true ..).mp answered
  obtain ⟨session', found', shape'⟩ := (Option.any_eq_true ..).mp answered'
  obtain ⟨replies, rfl⟩ := Sample.exists_list shape
  obtain ⟨replies', rfl⟩ := Sample.exists_list shape'
  obtain ⟨dag, sends⟩ := Sends.of_reads (within happened) reads
  have sends' : Sends second.1 Sample.next begun (some .execute) dag :=
    { sends with happened := within' happened }
  have accepted : begun.before.engine.refusal? dag = none := by
    cases refusal : begun.before.engine.refusal? dag with
    | none => rfl
    | some cause =>
        have refused := (run.refused found sends refusal).2.1
        cases refused
  have watched : Watched first.1 Sample.next begun dag (.answered (.array replies)) :=
    ⟨⟨_, _, _, run, found⟩, ⟨_, sends⟩, accepted, nofun⟩
  have watched' : Watched second.1 Sample.next begun dag (.answered (.array replies')) :=
    ⟨⟨_, _, _, run', found'⟩, ⟨_, sends'⟩, accepted, nofun⟩
  exact ⟨first, second, begun, dag, _, _, watched, watched', stays, gone,
    runs_on_snapshot watched watched' (fun _ _ => rfl) (.of_eq same)⟩

end Service

end InferenceStore
