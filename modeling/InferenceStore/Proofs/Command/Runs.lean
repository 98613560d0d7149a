import InferenceStore.Command.Model
import InferenceStore.Command.Script

/-
What a run of a model or script says once it is read: the instance is the one that its key holds,
and a model is asked for as many inputs and outputs as it has.
-/

namespace InferenceStore

namespace Outcome

variable {α β : Type}

theorem bind_eq_ok {outcome : Outcome α} {next : α → Outcome β} {result : β} :
    outcome >>= next = .ok result ↔ ∃ value, outcome = .ok value ∧ next value = .ok result := by
  cases outcome with
  | error cause => simp [bind, Except.bind]
  | ok value => simp [bind, Except.bind]

theorem map_eq_ok {outcome : Outcome α} {change : α → β} {result : β} :
    outcome.map change = .ok result ↔ ∃ value, outcome = .ok value ∧ change value = result := by
  cases outcome with
  | error cause => simp [Except.map]
  | ok value => simp [Except.map]

end Outcome

open Outcome

namespace Keyspace

variable {keyspace : Keyspace} {key : String}

theorem getModel_eq_ok {model : Model} :
    keyspace.getModel key = .ok model ↔ keyspace.get? key = some (.model model) := by
  unfold getModel
  split <;> simp_all

theorem getScript_eq_ok {script : Script} :
    keyspace.getScript key = .ok script ↔ keyspace.get? key = some (.script script) := by
  unfold getScript
  split <;> simp_all

end Keyspace

namespace Command

theorem length_of_texts {arguments : List Bytes} {names : List String}
    (read : texts arguments = .ok names) : names.length = arguments.length := by
  induction arguments generalizing names with
  | nil =>
      cases read
      rfl
  | cons argument rest ih =>
      obtain ⟨head, _, read⟩ := bind_eq_ok.mp read
      obtain ⟨tail, others, read⟩ := bind_eq_ok.mp read
      cases read
      rw [List.length_cons, List.length_cons, ih others]

theorem length_of_modelScope {side : Side} {expected : Nat} {arguments rest : List Bytes}
    {names : List String} (read : modelScope side expected arguments = .ok (names, rest)) :
    names.length = expected := by
  unfold modelScope at read
  split at read
  · cases read
  · split at read
    · cases read
    · split at read
      · cases read
      · split at read
        · cases read
        · split at read
          · cases read
          · rename_i counted
            split at read
            · cases read
            · rename_i taken behind cut
              obtain ⟨named, listed, read⟩ := bind_eq_ok.mp read
              cases read
              rw [length_of_texts listed, (length_of_take? cut).1]
              exact Classical.not_not.mp counted

/-- A model is run with as many names as it has inputs and outputs. -/
structure ModelRun.Fits (run : ModelRun) (keyspace : Keyspace) : Prop where
  held : ∃ key, keyspace.get? key = some (.model run.model)
  inputs : run.inputs.length = run.model.inputCount
  outputs : run.outputs.length = run.model.outputCount

theorem ModelRun.fits_of_execute {keyspace : Keyspace} {arguments : List Bytes} {run : ModelRun}
    (read : ModelRun.ofExecute keyspace arguments = .ok run) : run.Fits keyspace := by
  unfold ModelRun.ofExecute at read
  split at read
  · split at read
    · cases read
    · obtain ⟨key, _, read⟩ := bind_eq_ok.mp read
      obtain ⟨model, held, read⟩ := bind_eq_ok.mp read
      obtain ⟨⟨inputs, _⟩, listed, read⟩ := bind_eq_ok.mp read
      obtain ⟨⟨outputs, _⟩, listedToo, read⟩ := bind_eq_ok.mp read
      obtain ⟨timeout, _, read⟩ := bind_eq_ok.mp read
      cases read
      exact ⟨⟨key, Keyspace.getModel_eq_ok.mp held⟩, length_of_modelScope listed,
        length_of_modelScope listedToo⟩
  · cases read

theorem ModelRun.fits_of_run {keyspace : Keyspace} {arguments : List Bytes} {run : ModelRun}
    (read : ModelRun.ofRun keyspace arguments = .ok run) : run.Fits keyspace := by
  unfold ModelRun.ofRun at read
  split at read
  · split at read
    · cases read
    · obtain ⟨key, _, read⟩ := bind_eq_ok.mp read
      obtain ⟨model, held, read⟩ := bind_eq_ok.mp read
      obtain ⟨⟨timeout, scopes⟩, _, read⟩ := bind_eq_ok.mp read
      dsimp only at read
      split at read
      · cases read
      · split at read
        · cases read
        · obtain ⟨inputs, _, read⟩ := bind_eq_ok.mp read
          obtain ⟨outputs, _, read⟩ := bind_eq_ok.mp read
          split at read
          · cases read
          · rename_i fits
            split at read
            · cases read
            · rename_i fitsToo
              cases read
              exact ⟨⟨key, Keyspace.getModel_eq_ok.mp held⟩, Classical.not_not.mp fits,
                Classical.not_not.mp fitsToo⟩
  · cases read

theorem ScriptRun.held_of_execute {keyspace : Keyspace} {arguments : List Bytes} {run : ScriptRun}
    (read : ScriptRun.ofExecute keyspace arguments = .ok run) :
    ∃ key, keyspace.get? key = some (.script run.script) := by
  unfold ScriptRun.ofExecute at read
  split at read
  · obtain ⟨key, _, read⟩ := bind_eq_ok.mp read
    obtain ⟨script, held, read⟩ := bind_eq_ok.mp read
    obtain ⟨function, _, read⟩ := bind_eq_ok.mp read
    obtain ⟨scopes, _, read⟩ := bind_eq_ok.mp read
    cases read
    exact ⟨key, Keyspace.getScript_eq_ok.mp held⟩
  · cases read

theorem ScriptRun.held_of_run {keyspace : Keyspace} {arguments : List Bytes} {run : ScriptRun}
    (read : ScriptRun.ofRun keyspace arguments = .ok run) :
    ∃ key, keyspace.get? key = some (.script run.script) := by
  unfold ScriptRun.ofRun at read
  split at read
  · split at read
    · cases read
    · obtain ⟨key, _, read⟩ := bind_eq_ok.mp read
      obtain ⟨script, held, read⟩ := bind_eq_ok.mp read
      obtain ⟨function, _, read⟩ := bind_eq_ok.mp read
      obtain ⟨sections, _, read⟩ := bind_eq_ok.mp read
      cases read
      exact ⟨key, Keyspace.getScript_eq_ok.mp held⟩
  · cases read

end Command

end InferenceStore
