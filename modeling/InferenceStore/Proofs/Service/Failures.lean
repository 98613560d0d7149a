import InferenceStore.Proofs.Dag.Dependencies
import InferenceStore.Proofs.Service.Effects
import InferenceStore.Proofs.Service.Reachable

/-
Failures of graphs that clients send. A client that goes on with a result gets a tensor for each
name that it waits for, as runs give what they are asked for and a model is asked for all that it
has. So in every run the course of a graph is one in which failures travel along names only.
-/

namespace InferenceStore

namespace Engine.Sound

variable {engine : Engine} {records : Records}

theorem length_of_result (sound : engine.Sound records) {execution : Execution}
    (known : execution.Known records) {outputs : List Tensor}
    (returned : engine.dispatcher.result? execution.request = some (.ok outputs)) :
    outputs.length = execution.outputs.length := by
  obtain ⟨state, run, alike⟩ := sound.run
  obtain ⟨request, pushed, numbered, count⟩ := known.asked
  have identified : Identified records.past.pushed := by
    intro a inA b inB same
    have first := (sound.requests a inA).catalogued
    rw [same, (sound.requests b inB).catalogued] at first
    exact (Option.some.inj first).symm
  have result : state.result? execution.request = some (.ok outputs) := by
    rw [← returned, Dispatcher.result?, Dispatcher.result?, alike.results]
  obtain ⟨other, inOther, same, length⟩ := run.length_of_result identified
    (fun request member => (sound.requests request member).equipped) result
  have one : other = request :=
    List.inj_on_of_nodup_map run.distinct inOther pushed (same.trans numbered.symm)
  rw [length, one, count]

end Engine.Sound

namespace Service

variable {config : Config} {clustered : Bool} {history : History} {service : Service}
  {client : Nat} {begun : Moment} {dag : Dag}

theorem Run.filled (run : Run (.create config clustered) history service) {deeds : List Deed}
    {pending : List (Target × List Tensor × Nat)}
    (told : Told client (history.of client) deeds pending) : ∀ deed ∈ deeds, deed.Filled := by
  intro deed member call tensors called result
  obtain ⟨moment, own, execution, waits, outputs, returned⟩ :=
    told.answered deed member call called
  obtain ⟨earlier, later, rfl⟩ := List.append_of_mem (List.mem_filter.mp own).1
  obtain ⟨records, sound⟩ := run.before.1.sound
  rw [result] at returned
  rw [← outputs]
  unfold execution? at waits
  split at waits
  · rename_i found
    cases waits
    exact sound.engine.length_of_result (sound.execution found) returned
  · cases waits

/-- The failures of a graph that replies with a list, in every run. -/
theorem Run.failures_travel_along_names (run : Run (.create config clustered) history service)
    {flavor : DagFlavor} (sends : Sends history client begun (some flavor) dag)
    {replies : List Reply} (found : service.clients[client]? = some (.answered (.array replies))) :
    ∃ loaded deeds final last failures,
      Concluded dag loaded client (history.of client) deeds final last failures (.array replies) ∧
        replies = deeds.map Deed.reply ++ failures.map Reply.error ∧
        FailuresFollow dag deeds replies := by
  obtain ⟨arguments, giveUpAt, _, commanded⟩ := sends.command
  cases refusal : begun.before.engine.refusal? dag with
  | some cause =>
      have refused := (run.refused found sends refusal).2.1
      cases refused
  | none =>
      obtain ⟨loaded, deeds, final, last, failures, loading, concluded, shape⟩ :=
        run.concluded found sends refusal nofun
      have replied := Reply.array.inj (shape rfl)
      have loads : ∀ name, (loaded.get? name).isSome = true ↔ name ∈ dag.load :=
        fun name => isSome_loaded_iff loading
      cases commanded with
      | flavored named read =>
          refine ⟨loaded, deeds, final, last, failures, concluded, replied, ?_⟩
          rw [replied]
          exact failures_follow concluded.course (run.filled concluded.told) concluded.ops loads
            (Dag.read_of_arguments read) concluded.persisted.failures

def Sample.failsThenSkips : Session → Bool
  | .answered (.array [.error _, .status text]) => text == "NA"
  | _ => false

/-- A model fails, and its output cannot be read. -/
theorem Run.skips_behind_failure : ∃ history service begun dag cause deeds,
    Run (.create .initial false) history service ∧
      Sends history Sample.next begun (some .execute) dag ∧
      service.clients[Sample.next]? = some (.answered (.array [.error cause, .notAvailable])) ∧
      FailuresFollow dag deeds [.error cause, .notAvailable] := by
  obtain ⟨history, service, run, checked⟩ := History.exists_run (.create .initial false)
    (Sample.opening ++
      Sample.send ["AI.DAGEXECUTE", "LOAD", "1", "a", "|>",
        "AI.MODELEXECUTE", "broken", "INPUTS", "1", "a", "OUTPUTS", "1", "c", "|>",
        "AI.TENSORGET", "c", "VALUES"] ::
      Sample.turn)
    (fun history service => history.any (·.reads Sample.next .execute) &&
      (service.clients[Sample.next]?).any Sample.failsThenSkips)
    (by decide +kernel)
  obtain ⟨sent, answered⟩ := Bool.and_eq_true_iff.mp checked
  obtain ⟨begun, happened, reads⟩ := List.any_eq_true.mp sent
  obtain ⟨dag, sends⟩ := Sends.of_reads happened reads
  obtain ⟨session, found, shape⟩ := (Option.any_eq_true ..).mp answered
  unfold Sample.failsThenSkips at shape
  split at shape
  · rename_i cause text
    rw [eq_of_beq shape] at found
    obtain ⟨_, deeds, _, _, _, _, _, follows⟩ := run.failures_travel_along_names sends found
    exact ⟨history, service, begun, dag, cause, deeds, run, sends, found, follows⟩
  · cases shape

end Service

end InferenceStore
