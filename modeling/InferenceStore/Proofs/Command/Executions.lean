import InferenceStore.Dag.Basic
import InferenceStore.Proofs.Command.Arguments

/-
Commands that execute a model or a script. Each may end in a timeout, and what stands in front of
it is the same command without one: the scopes say by their counts where they end, so they are read
alike whatever follows.
-/

namespace InferenceStore

open Outcome

namespace Command

variable {keyspace : Keyspace} {arguments rest : List Bytes} {names : List String}

/-- The words of a timeout that ends a command, if there is one. -/
inductive Ending : Option Nat → List Bytes → Prop
  | none : Ending none []
  | timeout {keyword value : Bytes} {milliseconds : Nat}
      (named : Text.isKeyword keyword "TIMEOUT" = true)
      (positive : Decimal.positive? value = some milliseconds) :
      Ending (some milliseconds) [keyword, value]

theorem length_of_ending {timeout : Option Nat} {ending : List Bytes}
    (ends : Ending timeout ending) : ending.length = if timeout.isSome then 2 else 0 := by
  cases ends <;> rfl

/-! ### Models -/

theorem modelScope_eq_ok_iff {side : Side} {expected : Nat} :
    modelScope side expected arguments = .ok (names, rest) ↔
      ∃ keyword count, Text.isKeyword keyword side.scope = true ∧
        Decimal.positive? count = some expected ∧ names.length = expected ∧
        arguments = keyword :: count :: (names.map Text.encode ++ rest) := by
  constructor
  · intro read
    have length := length_of_modelScope read
    unfold modelScope at read
    split at read
    · cases read
    · rename_i keyword behind
      split at read
      · cases read
      · rename_i named
        cases behind with
        | nil => cases read
        | cons digits behind =>
            rw [List.head?_cons, Option.bind_some, List.drop_one, List.tail_cons] at read
            split at read
            · cases read
            · rename_i count counted
              split at read
              · cases read
              · rename_i above
                split at read
                · cases read
                · rename_i same
                  split at read
                  · cases read
                  · rename_i taken after cut
                    obtain ⟨listed, spelled, read⟩ := bind_eq_ok.mp read
                    cases read
                    obtain ⟨_, rfl⟩ := take?_texts_iff.mp ⟨_, cut, spelled⟩
                    rw [Bool.not_eq_true', Bool.not_eq_false] at named
                    refine ⟨keyword, digits, named, ?_, length, rfl⟩
                    refine Decimal.positive?_eq_some_iff.mpr ⟨by omega, counted.trans ?_⟩
                    exact congrArg some (by omega)
  · rintro ⟨keyword, count, named, counted, length, rfl⟩
    obtain ⟨above, read⟩ := Decimal.positive?_eq_some_iff.mp counted
    obtain ⟨taken, cut, listed⟩ := take?_texts_iff.mpr ⟨length, Eq.refl (_ ++ rest)⟩
    have positive : expected ≠ 0 := by omega
    simp [modelScope, named, read, positive, cut, listed, bind, Except.bind, pure, Except.pure]

theorem finalTimeout_eq_ok_iff {timeout : Option Nat} :
    finalTimeout arguments = .ok timeout ↔ Ending timeout arguments := by
  constructor
  · intro read
    unfold finalTimeout at read
    split at read
    · cases read
      exact .none
    · split at read
      · cases read
      · rename_i keyword _ named
        rw [Bool.not_eq_true', Bool.not_eq_false] at named
        split at read
        · cases read
        · obtain ⟨milliseconds, positive, read⟩ := bind_eq_ok.mp read
          split at read
          · cases read
            exact .timeout named (timeout_eq_ok_iff.mp positive)
          · cases read
  · intro ending
    cases ending with
    | none => rfl
    | timeout named positive =>
        simp [finalTimeout, named, timeout_eq_ok_iff.mpr positive, bind, Except.bind, pure,
          Except.pure]

/-- The command of a run is the same up to its end, whatever timeout it has. -/
theorem ModelRun.exists_body {run : ModelRun} (read : ofExecute keyspace arguments = .ok run) :
    ∃ body ending, arguments = body ++ ending ∧ Ending run.timeout ending ∧
      ∀ {timeout other}, Ending timeout other →
        ofExecute keyspace (body ++ other) = .ok { run with timeout := timeout } := by
  unfold ofExecute at read
  split at read
  · rename_i command key behind
    split at read
    · cases read
    · obtain ⟨name, named, read⟩ := bind_eq_ok.mp read
      obtain ⟨model, held, read⟩ := bind_eq_ok.mp read
      obtain ⟨⟨inputs, afterInputs⟩, first, read⟩ := bind_eq_ok.mp read
      obtain ⟨⟨outputs, ending⟩, second, read⟩ := bind_eq_ok.mp read
      obtain ⟨timeout, last, read⟩ := bind_eq_ok.mp read
      cases read
      obtain ⟨inKeyword, inCount, inNamed, inCounted, inLength, rfl⟩ :=
        modelScope_eq_ok_iff.mp first
      obtain ⟨outKeyword, outCount, outNamed, outCounted, outLength, rfl⟩ :=
        modelScope_eq_ok_iff.mp second
      refine ⟨command :: key :: inKeyword :: inCount :: (inputs.map Text.encode ++
        outKeyword :: outCount :: outputs.map Text.encode), ending, by simp,
        finalTimeout_eq_ok_iff.mp last, ?_⟩
      intro timeout other ends
      have first : modelScope .input model.inputCount (inKeyword :: inCount ::
          (inputs.map Text.encode ++ (outKeyword :: outCount ::
            (outputs.map Text.encode ++ other)))) = .ok (inputs, _) :=
        modelScope_eq_ok_iff.mpr ⟨inKeyword, inCount, inNamed, inCounted, inLength, rfl⟩
      have second : modelScope .output model.outputCount (outKeyword :: outCount ::
          (outputs.map Text.encode ++ other)) = .ok (outputs, other) :=
        modelScope_eq_ok_iff.mpr ⟨outKeyword, outCount, outNamed, outCounted, outLength, rfl⟩
      have inputsThere := (Decimal.positive?_eq_some_iff.mp inCounted).1
      have outputsThere := (Decimal.positive?_eq_some_iff.mp outCounted).1
      simp only [List.cons_append, List.append_assoc, ofExecute]
      rw [if_neg]
      · exact bind_eq_ok.mpr ⟨name, named, bind_eq_ok.mpr ⟨model, held, bind_eq_ok.mpr ⟨_, first,
          bind_eq_ok.mpr ⟨_, second, bind_eq_ok.mpr
            ⟨timeout, finalTimeout_eq_ok_iff.mpr ends, rfl⟩⟩⟩⟩⟩
      · simp only [List.length_cons, List.length_append, List.length_map]
        omega
  · cases read

/-! ### Scripts -/

namespace Scope

theorem keyword_distinct (left right : Scope)
    (same : (Text.encode left.keyword).map Text.lowerByte =
      (Text.encode right.keyword).map Text.lowerByte) : left = right := by
  revert same
  cases left <;> cases right <;> decide +kernel

theorem ofKeyword?_eq_some_iff {argument : Bytes} {scope : Scope} :
    ofKeyword? argument = some scope ↔ Text.isKeyword argument scope.keyword = true := by
  apply Text.find?_isKeyword_iff
  · intro listed
    cases listed <;> decide
  · exact keyword_distinct

theorem not_timeout {argument : Bytes} {scope : Scope}
    (named : Text.isKeyword argument scope.keyword = true) :
    ¬ Text.isKeyword argument "TIMEOUT" = true := by
  intro ends
  have same := Text.isKeyword_unique named ends
  revert same
  cases scope <;> decide +kernel

theorem names_eq_ok_iff {scope : Scope} :
    scope.names arguments = .ok (names, rest) ↔
      ∃ count, Decimal.positive? count = some names.length ∧
        arguments = count :: (names.map Text.encode ++ rest) := by
  constructor
  · intro read
    unfold Scope.names at read
    split at read
    · cases read
    · rename_i digits behind
      split at read
      · cases read
      · rename_i count counted
        split at read
        · cases read
        · rename_i taken after cut
          split at read
          · cases read
          · rename_i listed spelled
            cases read
            obtain ⟨length, rfl⟩ := take?_texts_iff.mp ⟨_, cut, spelled⟩
            exact ⟨digits, length ▸ counted, rfl⟩
  · rintro ⟨count, counted, rfl⟩
    obtain ⟨taken, cut, listed⟩ := take?_texts_iff.mpr ⟨Eq.refl names.length, Eq.refl (_ ++ rest)⟩
    simp only [Scope.names, counted, cut, listed]

end Scope

namespace ScriptScopes

theorem closing_eq_ok_iff {milliseconds : Nat} :
    closing arguments = .ok milliseconds ↔
      ∃ value, Decimal.positive? value = some milliseconds ∧ arguments = [value] := by
  constructor
  · intro read
    unfold closing at read
    split at read
    · cases read
    · obtain ⟨_, positive, read⟩ := bind_eq_ok.mp read
      split at read
      · cases read
        exact ⟨_, timeout_eq_ok_iff.mp positive, rfl⟩
      · cases read
  · rintro ⟨value, positive, rfl⟩
    exact bind_eq_ok.mpr ⟨milliseconds, timeout_eq_ok_iff.mpr positive, rfl⟩

theorem timeout_add (scopes : ScriptScopes) (names : List String) (scope : Scope) :
    (scopes.add names scope).timeout = scopes.timeout := by
  cases scope <;> rfl

theorem read_of_ending {scopes : ScriptScopes} {timeout : Option Nat} {ending : List Bytes}
    (untimed : scopes.timeout = none) (ends : Ending timeout ending) :
    scopes.read ending = .ok { scopes with timeout := timeout } := by
  cases ends with
  | none => rw [read, ← untimed]
  | timeout named positive =>
      rw [read, if_pos named]
      exact bind_eq_ok.mpr ⟨_, closing_eq_ok_iff.mpr ⟨_, positive, rfl⟩, rfl⟩

theorem read_scope {scopes : ScriptScopes} {scope : Scope} {keyword : Bytes}
    (named : Text.isKeyword keyword scope.keyword = true)
    (fresh : scopes.has scope = false) :
    scopes.read (keyword :: rest) =
      scope.names rest >>= fun (names, behind) => (scopes.add names scope).read behind := by
  rw [read, if_neg (Scope.not_timeout named)]
  simp only [Scope.ofKeyword?_eq_some_iff.mpr named, fresh, Bool.false_eq_true, if_false]
  split
  · rename_i cause failed
    rw [failed]
    rfl
  · rename_i names behind succeeded
    rw [succeeded]
    rfl

theorem exists_body {scopes final : ScriptScopes} (untimed : scopes.timeout = none)
    (done : scopes.read arguments = .ok final) :
    ∃ body ending, arguments = body ++ ending ∧ Ending final.timeout ending ∧
      ∀ {timeout other}, Ending timeout other →
        scopes.read (body ++ other) = .ok { final with timeout := timeout } := by
  fun_induction read scopes arguments with
  | case1 scopes =>
      cases done
      exact ⟨[], [], rfl, untimed ▸ .none, fun ends => read_of_ending untimed ends⟩
  | case2 scopes keyword rest named =>
      obtain ⟨milliseconds, closed, done⟩ := bind_eq_ok.mp done
      cases done
      obtain ⟨value, positive, rfl⟩ := closing_eq_ok_iff.mp closed
      exact ⟨[], _, rfl, .timeout named positive, fun ends => read_of_ending untimed ends⟩
  | case3 => cases done
  | case4 => cases done
  | case5 => cases done
  | case6 scopes keyword rest other scope known fresh names behind found ih =>
      obtain ⟨body, ending, rfl, ends, reads⟩ := ih ((timeout_add ..).trans untimed) done
      obtain ⟨count, counted, rfl⟩ := Scope.names_eq_ok_iff.mp found
      refine ⟨keyword :: count :: (names.map Text.encode ++ body), ending, by simp, ends, ?_⟩
      intro timeout last ends
      have listed : scope.names (count :: (names.map Text.encode ++ (body ++ last))) =
          .ok (names, body ++ last) := Scope.names_eq_ok_iff.mpr ⟨count, counted, rfl⟩
      simp only [List.cons_append, List.append_assoc]
      rw [read_scope (Scope.ofKeyword?_eq_some_iff.mp known) (Bool.eq_false_iff.mpr fresh), listed]
      exact reads ends

end ScriptScopes

theorem ScriptRun.exists_body {run : ScriptRun} (read : ofExecute keyspace arguments = .ok run) :
    ∃ body ending, arguments = body ++ ending ∧ Ending run.timeout ending ∧
      ∀ {timeout other}, Ending timeout other →
        ofExecute keyspace (body ++ other) = .ok { run with timeout := timeout } := by
  unfold ofExecute at read
  split at read
  · rename_i command key function behind
    obtain ⟨name, named, read⟩ := bind_eq_ok.mp read
    obtain ⟨script, held, read⟩ := bind_eq_ok.mp read
    obtain ⟨called, callable, read⟩ := bind_eq_ok.mp read
    obtain ⟨scopes, done, read⟩ := bind_eq_ok.mp read
    cases read
    obtain ⟨body, ending, rfl, ends, reads⟩ := ScriptScopes.exists_body rfl done
    refine ⟨command :: key :: function :: body, ending, rfl, ends, fun other => ?_⟩
    exact bind_eq_ok.mpr ⟨name, named, bind_eq_ok.mpr ⟨script, held, bind_eq_ok.mpr
      ⟨called, callable, bind_eq_ok.mpr ⟨_, reads other, rfl⟩⟩⟩⟩
  · cases read

end Command

end InferenceStore
