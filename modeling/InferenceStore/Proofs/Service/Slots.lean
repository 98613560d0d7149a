import InferenceStore.Proofs.Dag.Keys
import InferenceStore.Proofs.Service.Standalone

/-
Slots of a command's keys. In a cluster a command that runs a graph is refused exactly if two of
the keys that are checked for it lie in different slots. Those are the keys that its words name,
unless the host holds a model or script under another key than the one it was loaded for: then the
slot of that other key counts, and not the slot of the key that was named.
-/

namespace InferenceStore

open Command

theorem Keyspace.cause?_getTensor_ne (keyspace : Keyspace) (key : String) :
    (keyspace.getTensor key).cause? ≠ some .crossSlot := by
  unfold Keyspace.getTensor
  split <;> nofun

theorem Engine.refusal?_eq_crossSlot_iff {engine : Engine} {dag : Dag}
    (clustered : engine.clusterMode = true) :
    engine.refusal? dag = some .crossSlot ↔ Slot.crosses dag.keys = true := by
  unfold refusal?
  rw [clustered, Bool.true_and]
  split
  · rename_i crossing
    simp only [crossing]
  · rename_i shared
    refine iff_of_false (fun refused => ?_) shared
    obtain ⟨name, _, fault⟩ := List.exists_of_findSome?_eq_some refused
    exact Keyspace.cause?_getTensor_ne _ name fault

theorem Context.fault?_ne_crossSlot (context : Context) (keyspace : Keyspace) (name : String) :
    context.fault? keyspace name ≠ some .crossSlot := by
  unfold Context.fault?
  split
  · nofun
  · split <;> nofun

namespace Service

variable {store : Engine} {history own : History} {service : Service} {client giveUpAt : Nat}
  {begun last : Moment} {origin : Option DagFlavor} {dag : Dag} {session : Session}
  {arguments : List Bytes} {keyspace : Keyspace} {loaded final : Context} {deeds : List Deed}
  {failures : List Error} {reply : Reply}

/-- No backend has reported keys in different slots. -/
def History.Plain (own : History) : Prop :=
  ∀ moment ∈ own, moment.delivered? ≠ some (.error .crossSlot)

theorem Concluded.reply_ne_crossSlot
    (concluded : Concluded dag loaded client own deeds final last failures reply)
    (commanded : Dag.Commanded keyspace arguments origin dag)
    (loading : loadContext keyspace .empty dag.load = .ok loaded) (plain : own.Plain) :
    reply ≠ .error .crossSlot := by
  rw [concluded.reply]
  cases origin with
  | some flavor =>
      rw [Dag.reply_of_several commanded.singleOp_eq]
      nofun
  | none =>
      obtain ⟨op, target, rfl, runs⟩ := commanded.exists_single
      obtain ⟨deed, rfl, rfl⟩ := List.map_eq_singleton_iff.mp concluded.ops.symm
      have inputs : ∀ name ∈ deed.op.inputs, (loaded.get? name).isSome = true :=
        fun name member => (isSome_loaded_iff loading).mpr (Dag.mem_load_single.mpr member)
      rcases concluded.course.single_cases runs inputs with
        ⟨cause, result, replied, _⟩ | ⟨tensors, _, replied, _⟩
      · rw [List.map_singleton, replied, Dag.reply_single_of_error]
        rintro ⟨rfl⟩
        have told : .error .crossSlot ∈ own.filterMap Moment.delivered? := by
          rw [concluded.told.delivered]
          exact List.mem_filterMap.mpr ⟨deed, List.mem_singleton.mpr rfl, result⟩
        obtain ⟨moment, happened, delivered⟩ := List.mem_filterMap.mp told
        exact plain moment happened delivered
      · rw [List.map_singleton, replied, Dag.reply_single_of_okay]
        cases failures with
        | nil => nofun
        | cons cause rest =>
            rintro ⟨rfl⟩
            have failed : .crossSlot ∈ Error.crossSlot :: rest := List.mem_cons_self ..
            rw [concluded.persisted.failures] at failed
            obtain ⟨name, _, fault⟩ := List.mem_filterMap.mp failed
            exact Context.fault?_ne_crossSlot _ _ name fault

/-- How the slots of a command's keys were checked. -/
structure SlotsChecked (keyspace : Keyspace) (arguments : List Bytes) (origin : Option DagFlavor)
    (dag : Dag) (session : Session) : Prop where
  named : ∃ instances others, Dag.Names keyspace arguments origin dag instances others
  /-- A model or script counts for the key that it was loaded for. -/
  checked : ∀ instances others, Dag.Names keyspace arguments origin dag instances others →
    (session = .answered (.error .crossSlot) ↔
      Slot.crosses (instances.map keyspace.loadedFor ++ others) = true)
  /-- Where that is the key at which it is held, exactly the named keys count. -/
  faithful : ∀ instances others, Dag.Names keyspace arguments origin dag instances others →
    (∀ key ∈ instances, keyspace.loadedFor key = key) →
    (session = .answered (.error .crossSlot) ↔ Slot.crosses (instances ++ others) = true)

namespace Run

theorem crossSlot_iff_crosses (run : Run store history service)
    (sends : Sends history client begun origin dag)
    (clustered : begun.before.engine.clusterMode = true)
    (found : service.clients[client]? = some session) (plain : (history.of client).Plain) :
    session = .answered (.error .crossSlot) ↔ Slot.crosses dag.keys = true := by
  rw [← Engine.refusal?_eq_crossSlot_iff clustered]
  constructor
  · rintro rfl
    cases refusal : begun.before.engine.refusal? dag with
    | some cause =>
        obtain ⟨_, answered, _⟩ := run.refused found sends refusal
        cases answered
        rfl
    | none =>
        obtain ⟨_, _, _, commanded⟩ := sends.command
        obtain ⟨loaded, deeds, final, last, failures, loading, concluded, _⟩ :=
          run.concluded found sends refusal nofun
        exact absurd rfl (concluded.reply_ne_crossSlot commanded loading plain)
  · intro refusal
    exact (run.refused found sends refusal).2.1

/-- In every run of a cluster, from every store, for every command that runs a graph: it is refused
for its slots exactly if two keys that are checked lie apart. -/
theorem slots_checked (run : Run store history service)
    (sends : Sends history client begun origin dag)
    (sent : begun.action = .command arguments giveUpAt)
    (clustered : begun.before.engine.clusterMode = true)
    (found : service.clients[client]? = some session) (plain : (history.of client).Plain) :
    SlotsChecked begun.before.engine.keyspace arguments origin dag session := by
  have decided := run.crossSlot_iff_crosses sends clustered found plain
  obtain ⟨_, _, sentToo, commanded⟩ := sends.command
  cases sent.symm.trans sentToo
  constructor
  case named => exact commanded.exists_names
  case checked =>
    intro instances others names
    rw [decided, Slot.crosses_congr fun key => names.mem_keys]
  case faithful =>
    intro instances others names own
    have same : instances.map begun.before.engine.keyspace.loadedFor = instances :=
      (List.map_congr_left own).trans (List.map_id' instances)
    rw [decided, Slot.crosses_congr fun key => names.mem_keys, same]

end Run

namespace Sample

/-- In a cluster, a tensor, and a model that the host has copied to the key beside it. -/
def copied : List Action :=
  [ .host (.register (Arithmetic.backend .torch)),
    send ["AI.TENSORSET", "a\x7b2\x7d", "INT8", "1", "VALUES", "1"],
    send ["AI.MODELSTORE", "m\x7b1\x7d", "TORCH", "CPU", "BLOB", "identity"],
    .host (.link "m\x7b1\x7d" "m\x7b2\x7d") ]

def words (model input output : String) : List String :=
  ["AI.MODELEXECUTE", model, "INPUTS", "1", input, "OUTPUTS", "1", output]

def executes (client : Nat) (model input output : String) (moment : Moment) : Bool :=
  moment.before.clients.length == client && moment.before.engine.clusterMode &&
    match moment.action with
    | .command arguments _ =>
        arguments == (words model input output).map Text.encode &&
          match ModelRun.ofExecute moment.before.engine.keyspace arguments with
          | .ok run => run.inputs == [input] && run.outputs == [output]
          | .error _ => false
    | _ => false

def refuses (client : Nat) (history : History) (service : Service) : Bool :=
  ((history.of client).all fun moment => moment.delivered?.isNone) &&
    match service.clients[client]? with
    | some (.answered (.error .crossSlot)) => true
    | _ => false

theorem names_of_executes {model input output : String} (happened : begun ∈ history)
    (checked : executes client model input output begun = true) :
    begun.before.engine.clusterMode = true ∧ ∃ dag arguments giveUpAt,
      Sends history client begun none dag ∧ begun.action = .command arguments giveUpAt ∧
        Dag.Names begun.before.engine.keyspace arguments none dag [model] [input, output] := by
  obtain ⟨⟨sender, clustered⟩, checked⟩ := by
    simpa only [executes, Bool.and_eq_true, beq_iff_eq] using checked
  refine ⟨clustered, ?_⟩
  cases sent : begun.action with
  | command arguments giveUpAt =>
      rw [sent] at checked
      obtain ⟨spelled, checked⟩ := by
        simpa only [Bool.and_eq_true, beq_iff_eq] using checked
      split at checked
      · rename_i run read
        obtain ⟨inputs, outputs⟩ := by
          simpa only [Bool.and_eq_true, beq_iff_eq] using checked
        have named : Command.name arguments = "AI.MODELEXECUTE" := by
          have alone : Command.name [Text.encode "AI.MODELEXECUTE"] = "AI.MODELEXECUTE" := by
            decide +kernel
          rw [spelled]
          exact alone
        have commanded := Dag.Commanded.modelExecute named read
        have names := Dag.Names.alone commanded
        have own : (Op.model run).instanceKeys arguments = [model] := by
          rw [spelled]
          simp [Op.instanceKeys, words, Text.decode?_encode]
        have rest : (Op.model run).inputs ++ (Op.model run).outputs ++ (Op.model run).hostKeys =
            [input, output] := by
          simp [Op.inputs, Op.outputs, Op.hostKeys, inputs, outputs]
        rw [own, rest] at names
        exact ⟨_, arguments, giveUpAt, ⟨happened, sender, arguments, giveUpAt, sent, commanded⟩, rfl,
          names⟩
      · cases checked
  | _ =>
      rw [sent] at checked
      cases checked

theorem refused_of_refuses (checked : refuses client history service = true) :
    (history.of client).Plain ∧ service.clients[client]? = some (.answered (.error .crossSlot)) := by
  obtain ⟨silent, refused⟩ := Bool.and_eq_true_iff.mp checked
  constructor
  · intro moment member delivered
    have undelivered := List.all_eq_true.mp silent moment member
    rw [delivered] at undelivered
    cases undelivered
  · split at refused
    · assumption
    · cases refused

end Sample

namespace Run

/-- A model is named by the key that it was loaded for, which lies in another slot than the rest. -/
theorem slots_checked_of_stored : ∃ history service begun dag arguments session,
    Run (.create .initial true) history service ∧ Sends history 2 begun none dag ∧
      service.clients[2]? = some session ∧
      SlotsChecked begun.before.engine.keyspace arguments none dag session ∧
      session = .answered (.error .crossSlot) := by
  obtain ⟨history, service, run, checked⟩ := History.exists_run (.create .initial true)
    (Sample.copied ++ [Sample.send (Sample.words "m\x7b1\x7d" "a\x7b2\x7d" "b\x7b2\x7d")])
    (fun history service =>
      history.any (Sample.executes 2 "m\x7b1\x7d" "a\x7b2\x7d" "b\x7b2\x7d") &&
        Sample.refuses 2 history service)
    (by decide +kernel)
  obtain ⟨executed, refused⟩ := Bool.and_eq_true_iff.mp checked
  obtain ⟨begun, happened, executes⟩ := List.any_eq_true.mp executed
  obtain ⟨clustered, dag, arguments, giveUpAt, sends, sent, _⟩ :=
    Sample.names_of_executes happened executes
  obtain ⟨plain, found⟩ := Sample.refused_of_refuses refused
  exact ⟨history, service, begun, dag, arguments, _, run, sends, found,
    run.slots_checked sends sent clustered found plain, rfl⟩

/-- The model is named by the key that it was copied to, beside the tensors; it is refused. -/
theorem refused_within_one_slot : ∃ history service begun dag arguments giveUpAt instances others,
    Run (.create .initial true) history service ∧ Sends history 2 begun none dag ∧
      begun.action = .command arguments giveUpAt ∧ begun.before.engine.clusterMode = true ∧
      Dag.Names begun.before.engine.keyspace arguments none dag instances others ∧
      service.clients[2]? = some (.answered (.error .crossSlot)) ∧
      Slot.crosses (instances ++ others) = false := by
  obtain ⟨history, service, run, checked⟩ := History.exists_run (.create .initial true)
    (Sample.copied ++ [Sample.send (Sample.words "m\x7b2\x7d" "a\x7b2\x7d" "b\x7b2\x7d")])
    (fun history service =>
      history.any (Sample.executes 2 "m\x7b2\x7d" "a\x7b2\x7d" "b\x7b2\x7d") &&
        Sample.refuses 2 history service)
    (by decide +kernel)
  obtain ⟨executed, refused⟩ := Bool.and_eq_true_iff.mp checked
  obtain ⟨begun, happened, executes⟩ := List.any_eq_true.mp executed
  obtain ⟨clustered, dag, arguments, giveUpAt, sends, sent, names⟩ :=
    Sample.names_of_executes happened executes
  exact ⟨history, service, begun, dag, arguments, giveUpAt, _, _, run, sends, sent, clustered, names,
    (Sample.refused_of_refuses refused).2, by decide +kernel⟩

end Run

end Service

end InferenceStore
