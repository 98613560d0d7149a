import InferenceStore.Proofs.Dag.Persist
import InferenceStore.Proofs.Service.Graphs

/-
What a graph does to the keyspace. It writes in one moment only, its client's last one, when all
its operations have run; there each name to persist that is bound is put once, and each that cannot
be put gives an error. A graph that is refused changes nothing at all, and one that has not replied,
or whose time is up, has not written and never will: steps of workers touch no key.
-/

namespace InferenceStore

namespace Dag

variable {dag : Dag} {replies : List Reply} {failures : List Error}

theorem reply_of_several (several : dag.singleOp = false) :
    dag.reply replies failures = .array (replies ++ failures.map .error) := by
  simp only [reply, several, Bool.false_eq_true, if_false]

theorem reply_ne_timedOut (inTime : ∀ reply ∈ replies, reply ≠ .timedOut) :
    dag.reply replies failures ≠ .timedOut := by
  have own : replies.getLast?.getD .notAvailable ≠ .timedOut := by
    cases last : replies.getLast? with
    | none => simp [Reply.notAvailable, Reply.timedOut]
    | some reply => exact inTime reply (List.mem_of_getLast? last)
  unfold reply
  split
  · dsimp only
    split
    · exact own
    · cases failures with
      | nil => exact own
      | cons cause rest =>
          intro same
          cases same
  · intro same
    cases same

end Dag

namespace Service

/-- A graph has come to an end: its operations have run, and in its client's last moment its names
were written back. -/
structure Concluded (dag : Dag) (loaded : Context) (client : Nat) (own : History)
    (deeds : List Deed) (final : Context) (last : Moment) (failures : List Error)
    (reply : Reply) : Prop where
  front : ∃ front, own = front ++ [last] ∧ ∀ moment ∈ front, moment.IsSilent
  course : Course loaded deeds final
  ops : dag.ops = deeds.map Deed.op
  told : Told client own deeds []
  persisted : Persisted final dag.persist last.before.engine.keyspace last.after.engine.keyspace
    failures
  reply : reply = dag.reply (deeds.map Deed.reply) failures

namespace Life

variable {dag : Dag} {loaded : Context} {client : Nat} {own : History} {session : Session}
  {reply : Reply}

theorem exists_concluded (life : Life dag loaded client own (.answered reply))
    (distinct : dag.persist.Nodup) (inTime : reply ≠ .timedOut) :
    ∃ deeds final last failures,
      Concluded dag loaded client own deeds final last failures reply := by
  cases life with
  | timedOut => exact absurd rfl inTime
  | @concluded front last deeds final split silent course ops told writes =>
      have persisted := persisted final last.before.engine.keyspace distinct
      rw [← writes] at persisted
      exact ⟨deeds, final, last, _, ⟨front, split, silent⟩, course, ops, told, persisted, rfl⟩

theorem silent_of_unanswered (life : Life dag loaded client own session)
    (unanswered : ∀ reply, session = .answered reply → reply = .timedOut) :
    ∀ moment ∈ own, moment.IsSilent := by
  cases life with
  | waiting silent => exact silent
  | gaveUp silent => exact silent
  | timedOut silent => exact silent
  | @concluded front last deeds final split silent course ops told writes =>
      refine absurd (unanswered _ rfl) (Dag.reply_ne_timedOut fun reply member => ?_)
      obtain ⟨deed, known, same⟩ := List.mem_map.mp member
      exact same ▸ course.reply_ne_timedOut known

theorem silent_of_nothing (life : Life dag loaded client own session)
    (nothing : dag.persist = []) : ∀ moment ∈ own, moment.IsSilent := by
  cases life with
  | waiting silent => exact silent
  | gaveUp silent => exact silent
  | timedOut silent => exact silent
  | @concluded front last deeds final split silent course ops told writes =>
      rw [nothing] at writes
      rw [split]
      exact List.forall_mem_append.mpr ⟨silent, List.forall_mem_singleton.mpr writes⟩

end Life

/-- What a graph, sent in this moment, does to the keyspace. -/
structure Effects (history : History) (client : Nat) (begun : Moment)
    (origin : Option DagFlavor) (dag : Dag) (session : Session) : Prop where
  refused : ∀ cause, begun.before.engine.refusal? dag = some cause →
    history.of client = [begun] ∧ session = .answered (.error cause) ∧
      begun.after.engine = begun.before.engine
  unanswered : (∀ reply, session = .answered reply → reply = .timedOut) →
    ∀ moment ∈ history.of client, moment.IsSilent
  readOnly : ∀ flavor, origin = some flavor → flavor.isReadOnly = true →
    ∀ moment ∈ history.of client, moment.IsSilent
  concluded : begun.before.engine.refusal? dag = none → ∀ reply, session = .answered reply →
    reply ≠ .timedOut → ∃ loaded deeds final last failures,
      loadContext begun.before.engine.keyspace .empty dag.load = .ok loaded ∧
      Concluded dag loaded client (history.of client) deeds final last failures reply ∧
      (origin.isSome = true →
        reply = .array (deeds.map Deed.reply ++ failures.map .error))
  workers : ∀ moment ∈ history, ∀ event, moment.action = .work event → moment.IsSilent

namespace Run

variable {store : Engine} {history : History} {service : Service} {client : Nat}
  {begun : Moment} {origin : Option DagFlavor} {dag : Dag} {session : Session}

theorem refused (run : Run store history service)
    (found : service.clients[client]? = some session)
    (sends : Sends history client begun origin dag) {cause : Error}
    (refused : begun.before.engine.refusal? dag = some cause) :
    history.of client = [begun] ∧ session = .answered (.error cause) ∧
      begun.after.engine = begun.before.engine := by
  obtain ⟨arguments, giveUpAt, sent, commanded⟩ := sends.command
  exact run.answered_at_once found (run.head_of_sends sends) sent
    (commanded.begins.trans (Engine.start_of_refusal refused))

theorem exists_life (run : Run store history service)
    (found : service.clients[client]? = some session)
    (sends : Sends history client begun origin dag)
    (accepted : begun.before.engine.refusal? dag = none) :
    ∃ loaded, loadContext begun.before.engine.keyspace .empty dag.load = .ok loaded ∧
      Life dag loaded client (history.of client) session := by
  obtain ⟨loaded, loading, starts⟩ := sends.starts accepted
  exact ⟨loaded, loading, run.life found (run.head_of_sends sends) starts⟩

theorem silent_of_accepted (run : Run store history service)
    (found : service.clients[client]? = some session)
    (sends : Sends history client begun origin dag)
    (silent : ∀ loaded, Life dag loaded client (history.of client) session →
      ∀ moment ∈ history.of client, moment.IsSilent) :
    ∀ moment ∈ history.of client, moment.IsSilent := by
  cases refusal : begun.before.engine.refusal? dag with
  | some cause =>
      obtain ⟨own, _, unchanged⟩ := run.refused found sends refusal
      rw [own]
      exact List.forall_mem_singleton.mpr (congrArg Engine.keyspace unchanged)
  | none =>
      obtain ⟨loaded, _, life⟩ := run.exists_life found sends refusal
      exact silent loaded life

theorem silent_of_unanswered (run : Run store history service)
    (found : service.clients[client]? = some session)
    (sends : Sends history client begun origin dag)
    (unanswered : ∀ reply, session = .answered reply → reply = .timedOut) :
    ∀ moment ∈ history.of client, moment.IsSilent :=
  run.silent_of_accepted found sends fun _ life => life.silent_of_unanswered unanswered

theorem concluded {reply : Reply} (run : Run store history service)
    (found : service.clients[client]? = some (.answered reply))
    (sends : Sends history client begun origin dag)
    (accepted : begun.before.engine.refusal? dag = none) (inTime : reply ≠ .timedOut) :
    ∃ loaded deeds final last failures,
      loadContext begun.before.engine.keyspace .empty dag.load = .ok loaded ∧
      Concluded dag loaded client (history.of client) deeds final last failures reply ∧
      (origin.isSome = true →
        reply = .array (deeds.map Deed.reply ++ failures.map .error)) := by
  obtain ⟨arguments, giveUpAt, _, commanded⟩ := sends.command
  obtain ⟨loaded, loading, life⟩ := run.exists_life found sends accepted
  obtain ⟨deeds, final, last, failures, concluded⟩ :=
    life.exists_concluded commanded.distinct inTime
  refine ⟨loaded, deeds, final, last, failures, loading, concluded, fun several => ?_⟩
  rw [concluded.reply]
  apply Dag.reply_of_several
  rw [commanded.singleOp_eq]
  cases origin <;> first | rfl | cases several

/-- The effects of a graph on the keyspace, in every run, from every store, for every command that
is read as a graph. -/
theorem graph_effects (run : Run store history service)
    (found : service.clients[client]? = some session)
    (sends : Sends history client begun origin dag) :
    Effects history client begun origin dag session := by
  constructor
  case refused => exact fun cause refusal => run.refused found sends refusal
  case unanswered => exact run.silent_of_unanswered found sends
  case readOnly =>
    rintro flavor rfl readOnly
    obtain ⟨arguments, giveUpAt, _, commanded⟩ := sends.command
    exact run.silent_of_accepted found sends fun _ life =>
      life.silent_of_nothing (commanded.persist_of_readOnly readOnly)
  case concluded =>
    rintro accepted reply rfl inTime
    exact run.concluded found sends accepted inTime
  case workers =>
    intro moment _ event works
    simp only [Moment.IsSilent, Moment.after, works, Service.after, onDispatcher]

/-- Of two outputs one is written and the other is refused, as its key is the host's. -/
theorem writes_beside_refused_key : ∃ history service begun dag session,
    Run (.create .initial false) history service ∧
      Sends history Sample.next begun (some .execute) dag ∧
      service.clients[Sample.next]? = some session ∧
      Effects history Sample.next begun (some .execute) dag session ∧
      (service.engine.keyspace.get? "out").map Value.typeName = some "tensor" ∧
      (service.engine.keyspace.get? "host").map Value.typeName = some "other" := by
  obtain ⟨history, service, run, checked⟩ := History.exists_run (.create .initial false)
    (Sample.opening ++
      Sample.send ["AI.DAGEXECUTE", "LOAD", "2", "a", "b", "PERSIST", "2", "out", "host", "|>",
        "AI.MODELEXECUTE", "pair", "INPUTS", "2", "a", "b", "OUTPUTS", "2", "out", "host"] ::
      Sample.turn)
    (fun history service =>
      history.any (·.reads Sample.next .execute) && (service.clients[Sample.next]?).isSome &&
        (service.engine.keyspace.get? "out").map Value.typeName == some "tensor" &&
        (service.engine.keyspace.get? "host").map Value.typeName == some "other")
    (by decide +kernel)
  simp only [Bool.and_eq_true, List.any_eq_true, beq_iff_eq] at checked
  obtain ⟨⟨⟨⟨begun, happened, reads⟩, present⟩, written⟩, refused⟩ := checked
  obtain ⟨dag, sends⟩ := Sends.of_reads happened reads
  obtain ⟨session, found⟩ := Option.isSome_iff_exists.mp present
  exact ⟨history, service, begun, dag, session, run, sends, found, run.graph_effects found sends,
    written, refused⟩

end Run

end Service

end InferenceStore
