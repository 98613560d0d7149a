import InferenceStore.Engine.Session
import InferenceStore.Proofs.Command.Arguments

/-
Settings over the life of a store. They are read by name from what a store is started with and from
what is set later, and by the command for settings, which has a reader of its own. Both readers keep
out of them what the store could not work with, and a change that fails changes nothing.
-/

namespace InferenceStore

open Outcome Command

/-- Settings that the store can work with: a piece of a blob is not empty, a queue has a worker,
and the time for a run is either not limited or no shorter than a second. -/
structure Config.Usable (config : Config) : Prop where
  modelChunkSize : 1 ≤ config.modelChunkSize
  threadsPerQueue : 1 ≤ config.threadsPerQueue
  backendTimeout : config.backendTimeout = 0 ∨ 1000 ≤ config.backendTimeout

/-- A change of settings, by a name and a value or by the words of a command. -/
inductive Config.Change where
  | set (name value : String)
  | command (arguments : List Bytes)

/-- The settings behind a change. One that fails leaves them as they were. -/
def Config.follow (config : Config) : Change → Config
  | .set name value =>
      match config.set name value with
      | .ok changed => changed
      | .error _ => config
  | .command arguments =>
      match ConfigCommand.ofArguments arguments with
      | .ok command => (command.apply config).1
      | .error _ => config

namespace Command.ConfigCommand

theorem one_le_of_ofArguments {arguments : List Bytes} {size : Nat}
    (read : ofArguments arguments = .ok (.modelChunkSize size)) : 1 ≤ size := by
  unfold ofArguments at read
  split at read
  · rename_i subcommand rest
    by_cases path : Text.isKeyword subcommand "BACKENDSPATH" = true
    · rw [if_pos path] at read
      split at read
      · cases read
      · rcases map_eq_ok.mp read with ⟨_, _, same⟩
        cases same
    · rw [if_neg path] at read
      by_cases chunk : Text.isKeyword subcommand "MODEL_CHUNK_SIZE" = true
      · rw [if_pos chunk] at read
        split at read
        · cases read
        · split at read
          · rename_i counted
            cases read
            exact (Decimal.positive?_eq_some_iff.mp counted).1
          · cases read
      · rw [if_neg chunk] at read
        split at read
        · split at read
          · cases read
          · rcases map_eq_ok.mp read with ⟨_, _, same⟩
            cases same
        · cases read
  · cases read

end Command.ConfigCommand

namespace Config

variable {config changed : Config} {name value : String}

theorem one_le_of_positive {n : Nat} (read : positive name value = .ok n) : 1 ≤ n := by
  unfold positive at read
  split at read
  · cases read
    exact Nat.succ_pos _
  · cases read

theorem usable_initial : initial.Usable := by
  constructor
  · decide
  · decide
  · exact Or.inl rfl

/-! ### One change -/

theorem Usable.set (usable : config.Usable) (done : config.set name value = .ok changed) :
    changed.Usable := by
  unfold Config.set at done
  generalize Setting.ofName? name = setting at done
  rcases setting with _ | setting
  · cases done
  · cases setting with
    | threadsPerQueue =>
        rcases bind_eq_ok.mp done with ⟨n, read, same⟩
        cases same
        exact { usable with threadsPerQueue := one_le_of_positive read }
    | intraOpParallelism =>
        rcases bind_eq_ok.mp done with ⟨n, _, same⟩
        cases same
        exact { usable with }
    | interOpParallelism =>
        rcases bind_eq_ok.mp done with ⟨n, _, same⟩
        cases same
        exact { usable with }
    | modelChunkSize =>
        rcases bind_eq_ok.mp done with ⟨n, read, same⟩
        cases same
        exact { usable with modelChunkSize := one_le_of_positive read }
    | backendTimeout =>
        rcases bind_eq_ok.mp done with ⟨n, _, same⟩
        by_cases short : n < leastBackendTimeout
        · rw [if_pos short] at same
          cases same
        · rw [if_neg short] at same
          cases same
          exact { usable with backendTimeout := Or.inr (Nat.le_of_not_lt short) }
    | backendsPath =>
        cases done
        exact { usable with }

theorem Usable.apply {arguments : List Bytes} {command : ConfigCommand} (usable : config.Usable)
    (read : ConfigCommand.ofArguments arguments = .ok command) :
    (command.apply config).1.Usable := by
  cases command with
  | backendsPath path => exact { usable with }
  | modelChunkSize size =>
      exact { usable with modelChunkSize := ConfigCommand.one_le_of_ofArguments read }
  | get name =>
      unfold ConfigCommand.apply
      dsimp only
      split
      · exact usable
      · exact usable

theorem Usable.follow (usable : config.Usable) (change : Change) : (config.follow change).Usable := by
  cases change with
  | set name value =>
      simp only [Config.follow]
      split
      · rename_i done
        exact usable.set done
      · exact usable
  | command arguments =>
      simp only [Config.follow]
      split
      · rename_i read
        exact usable.apply read
      · exact usable

/-! ### All changes -/

theorem Usable.setAll {arguments : List String} (usable : config.Usable)
    (done : config.setAll arguments = .ok changed) : changed.Usable := by
  induction config, arguments using Config.setAll.induct with
  | case1 config =>
      cases done
      exact usable
  | case2 config name => cases done
  | case3 config name value rest ih =>
      rcases bind_eq_ok.mp done with ⟨next, first, others⟩
      exact ih next (usable.set first) others

theorem usable_of_ofArguments {arguments : List String}
    (started : ofArguments arguments = .ok config) : config.Usable := by
  unfold ofArguments at started
  split at started
  · cases started
  · exact usable_initial.setAll started

theorem Usable.foldl (usable : config.Usable) (changes : List Change) :
    (changes.foldl Config.follow config).Usable := by
  induction changes generalizing config with
  | nil => exact usable
  | cons change rest ih => exact ih (usable.follow change)

end Config

/-- The command for settings is a change of the settings of the store, whatever its reply is. -/
theorem Engine.config_begin {engine : Engine} {arguments : List Bytes}
    (named : Command.name arguments = "AI.CONFIG") :
    (engine.begin arguments).1.config = engine.config.follow (.command arguments) := by
  simp only [Engine.begin, named, immediate, configure, Config.follow]
  split
  · rename_i refused
    rw [refused]
  · rename_i command read
    rw [read]

end InferenceStore
