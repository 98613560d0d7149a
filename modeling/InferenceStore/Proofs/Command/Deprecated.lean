import InferenceStore.Proofs.Command.Scopes

/-
Deprecated commands and those that replace them. The deprecated ones say by keywords where names
end, the others by counts. As long as no name is taken for a keyword, both come to the same run, and
one is accepted exactly if the other is: what each of them accepts is said in the same words.
-/

namespace InferenceStore

open Outcome

namespace Command

variable {keyspace : Keyspace} {key : Bytes} {rest : List Bytes} {limit : Option Bytes}

/-! ### Timeouts -/

def timeoutWords : Option Bytes → List Bytes
  | none => []
  | some value => [Text.encode "TIMEOUT", value]

/-- There is a timeout where there is a text for one, and the text is read as it. -/
def Timed (limit : Option Bytes) (timeout : Option Nat) : Prop :=
  Option.Rel (fun value milliseconds => Decimal.positive? value = some milliseconds) limit timeout

theorem ending_iff_timed {timeout : Option Nat} :
    Ending timeout (timeoutWords limit) ↔ Timed limit timeout := by
  cases limit with
  | none =>
      constructor
      · intro ends
        cases ends
        exact .none
      · intro timed
        cases timed
        exact .none
  | some value =>
      constructor
      · intro ends
        cases ends with
        | timeout _ positive => exact .some positive
      · intro timed
        cases timed with
        | some positive => exact .timeout (Text.isKeyword_encode _) positive

theorem leadingTimeout_eq_ok_iff {keyword : Bytes} {timeout : Option Nat} {behind : List Bytes}
    (other : Text.isKeyword keyword "TIMEOUT" = false) :
    leadingTimeout (timeoutWords limit ++ keyword :: rest) = .ok (timeout, behind) ↔
      Timed limit timeout ∧ behind = keyword :: rest := by
  cases limit with
  | none =>
      simp only [timeoutWords, List.nil_append, leadingTimeout, other, Bool.false_eq_true, if_false]
      constructor
      · intro read
        cases read
        exact ⟨.none, rfl⟩
      · rintro ⟨timed, rfl⟩
        cases timed
        rfl
  | some value =>
      have named : Text.isKeyword (Text.encode "TIMEOUT") "TIMEOUT" = true :=
        Text.isKeyword_encode _
      simp only [timeoutWords, List.cons_append, List.nil_append, leadingTimeout, named, if_true]
      constructor
      · intro read
        obtain ⟨milliseconds, positive, read⟩ := bind_eq_ok.mp read
        cases read
        exact ⟨.some (timeout_eq_ok_iff.mp positive), rfl⟩
      · rintro ⟨timed, rfl⟩
        cases timed with
        | some positive => exact bind_eq_ok.mpr ⟨_, timeout_eq_ok_iff.mpr positive, rfl⟩

/-! ### Counts -/

theorem counted_words_iff {count : Bytes} {words behind : List Bytes} {names : List String}
    (counted : Decimal.positive? count = some words.length) :
    (∃ digits, Decimal.positive? digits = some names.length ∧
        count :: (words ++ rest) = digits :: (names.map Text.encode ++ behind)) ↔
      words = names.map Text.encode ∧ behind = rest := by
  constructor
  · rintro ⟨digits, read, same⟩
    obtain ⟨rfl, sameBehind⟩ := List.cons.inj same
    rw [counted] at read
    have lengths : words.length = (names.map Text.encode).length := by
      rw [List.length_map]
      exact Option.some.inj read
    obtain ⟨spelled, rfl⟩ := List.append_inj sameBehind lengths
    exact ⟨spelled, rfl⟩
  · rintro ⟨rfl, rfl⟩
    rw [List.length_map] at counted
    exact ⟨count, counted, rfl⟩

/-! ### Models -/

namespace ModelRun

def runWords (key : Bytes) (limit : Option Bytes) (inputs outputs : List Bytes) : List Bytes :=
  Text.encode "AI.MODELRUN" :: key ::
    (timeoutWords limit ++
      Text.encode "INPUTS" :: (inputs ++ Text.encode "OUTPUTS" :: outputs))

/-- The command that replaces it, with texts for the counts. -/
def executeWords (key inputCount outputCount : Bytes) (limit : Option Bytes)
    (inputs outputs : List Bytes) : List Bytes :=
  Text.encode "AI.MODELEXECUTE" :: key :: Text.encode "INPUTS" :: inputCount ::
    (inputs ++ Text.encode "OUTPUTS" :: outputCount :: (outputs ++ timeoutWords limit))

/-- The run that a key, names and a timeout say. -/
structure Says (keyspace : Keyspace) (key : Bytes) (limit : Option Bytes)
    (inputs outputs : List Bytes) (run : ModelRun) : Prop where
  held : ∃ name, key = Text.encode name ∧ keyspace.getModel name = .ok run.model
  inputs : inputs = run.inputs.map Text.encode
  outputs : outputs = run.outputs.map Text.encode
  inputCount : run.inputs.length = run.model.inputCount
  outputCount : run.outputs.length = run.model.outputCount
  timed : Timed limit run.timeout

variable {run : ModelRun} {inputs outputs : List Bytes}

theorem cut_at_outputs (separate : ∀ input ∈ inputs, Text.isKeyword input "OUTPUTS" = false)
    (outputs : List Bytes) :
    let names := inputs ++ Text.encode "OUTPUTS" :: outputs
    (names.takeWhile fun name => !opensOutputs name) = inputs ∧
      (names.dropWhile fun name => !opensOutputs name) = Text.encode "OUTPUTS" :: outputs := by
  have passed : ∀ input ∈ inputs, (!opensOutputs input) = true := by
    intro input member
    rw [opensOutputs, separate input member]
    rfl
  have stops : (!opensOutputs (Text.encode "OUTPUTS")) = false := by
    rw [opensOutputs, Text.isKeyword_encode]
    rfl
  intro names
  constructor
  · rw [List.takeWhile_append_of_pos passed, List.takeWhile_cons, stops, if_neg Bool.false_ne_true,
      List.append_nil]
  · rw [List.dropWhile_append_of_pos passed, List.dropWhile_cons, stops, if_neg Bool.false_ne_true]

theorem ofRun_eq_ok_iff (separate : ∀ input ∈ inputs, Text.isKeyword input "OUTPUTS" = false)
    (several : inputs ≠ []) (severalToo : outputs ≠ []) :
    ofRun keyspace (runWords key limit inputs outputs) = .ok run ↔
      Says keyspace key limit inputs outputs run := by
  have long : ¬ (timeoutWords limit ++
      Text.encode "INPUTS" :: (inputs ++ Text.encode "OUTPUTS" :: outputs)).length < 4 := by
    have first := List.length_pos_iff.mpr several
    have second := List.length_pos_iff.mpr severalToo
    simp only [List.length_append, List.length_cons]
    omega
  have other : Text.isKeyword (Text.encode "INPUTS") "TIMEOUT" = false := by decide +kernel
  have named : Text.isKeyword (Text.encode "INPUTS") "INPUTS" = true := Text.isKeyword_encode _
  obtain ⟨front, back⟩ := cut_at_outputs separate outputs
  unfold ofRun runWords
  dsimp only
  rw [if_neg long]
  constructor
  · intro read
    obtain ⟨name, spelled, read⟩ := bind_eq_ok.mp read
    obtain ⟨model, held, read⟩ := bind_eq_ok.mp read
    obtain ⟨⟨timeout, scopes⟩, leading, read⟩ := bind_eq_ok.mp read
    obtain ⟨timed, rfl⟩ := (leadingTimeout_eq_ok_iff other).mp leading
    simp only [named, front, back] at read
    obtain ⟨listed, first, read⟩ := bind_eq_ok.mp read
    obtain ⟨listedToo, second, read⟩ := bind_eq_ok.mp read
    split at read
    · cases read
    · rename_i fits
      split at read
      · cases read
      · rename_i fitsToo
        cases read
        exact ⟨⟨name, text_eq_ok_iff.mp spelled, held⟩, texts_eq_ok_iff.mp first,
          texts_eq_ok_iff.mp second, Classical.not_not.mp fits, Classical.not_not.mp fitsToo, timed⟩
  · rintro ⟨⟨name, rfl, held⟩, rfl, rfl, fits, fitsToo, timed⟩
    refine bind_eq_ok.mpr ⟨name, text_eq_ok_iff.mpr rfl, bind_eq_ok.mpr ⟨run.model, held,
      bind_eq_ok.mpr ⟨_, (leadingTimeout_eq_ok_iff other).mpr ⟨timed, rfl⟩, ?_⟩⟩⟩
    simp only [named, front, back]
    refine bind_eq_ok.mpr ⟨run.inputs, texts_eq_ok_iff.mpr rfl,
      bind_eq_ok.mpr ⟨run.outputs, texts_eq_ok_iff.mpr rfl, ?_⟩⟩
    rw [if_neg (Classical.not_not.mpr fits), if_neg (Classical.not_not.mpr fitsToo)]
    rfl

theorem modelScope_words_iff {side : Side} {expected : Nat} {count : Bytes} {words : List Bytes}
    {names : List String} {behind : List Bytes}
    (counted : Decimal.positive? count = some words.length) :
    modelScope side expected (Text.encode side.scope :: count :: (words ++ rest)) =
        .ok (names, behind) ↔
      words = names.map Text.encode ∧ names.length = expected ∧ behind = rest := by
  rw [modelScope_eq_ok_iff]
  constructor
  · rintro ⟨keyword, digits, _, read, length, same⟩
    obtain ⟨rfl, rfl⟩ :=
      (counted_words_iff counted).mp ⟨digits, length ▸ read, (List.cons.inj same).2⟩
    exact ⟨rfl, length, rfl⟩
  · rintro ⟨rfl, rfl, rfl⟩
    rw [List.length_map] at counted
    exact ⟨_, count, Text.isKeyword_encode _, counted, rfl, rfl⟩

theorem ofExecute_eq_ok_iff {inputCount outputCount : Bytes}
    (counted : Decimal.positive? inputCount = some inputs.length)
    (countedToo : Decimal.positive? outputCount = some outputs.length) :
    ofExecute keyspace (executeWords key inputCount outputCount limit inputs outputs) = .ok run ↔
      Says keyspace key limit inputs outputs run := by
  have long : ¬ (Text.encode "INPUTS" :: inputCount ::
      (inputs ++ Text.encode "OUTPUTS" :: outputCount ::
        (outputs ++ timeoutWords limit))).length < 6 := by
    have first := (Decimal.positive?_eq_some_iff.mp counted).1
    have second := (Decimal.positive?_eq_some_iff.mp countedToo).1
    simp only [List.length_append, List.length_cons]
    omega
  unfold ofExecute executeWords
  dsimp only
  rw [if_neg long]
  constructor
  · intro read
    obtain ⟨name, spelled, read⟩ := bind_eq_ok.mp read
    obtain ⟨model, held, read⟩ := bind_eq_ok.mp read
    obtain ⟨⟨listed, afterInputs⟩, first, read⟩ := bind_eq_ok.mp read
    obtain ⟨⟨listedToo, afterOutputs⟩, second, read⟩ := bind_eq_ok.mp read
    obtain ⟨timeout, last, read⟩ := bind_eq_ok.mp read
    cases read
    obtain ⟨rfl, fits, rfl⟩ := (modelScope_words_iff counted).mp first
    obtain ⟨rfl, fitsToo, rfl⟩ := (modelScope_words_iff countedToo).mp second
    have timed := ending_iff_timed.mp (finalTimeout_eq_ok_iff.mp last)
    exact ⟨⟨name, text_eq_ok_iff.mp spelled, held⟩, rfl, rfl, fits, fitsToo, timed⟩
  · rintro ⟨⟨name, rfl, held⟩, rfl, rfl, fits, fitsToo, timed⟩
    have last := finalTimeout_eq_ok_iff.mpr (ending_iff_timed.mpr timed)
    exact bind_eq_ok.mpr ⟨name, text_eq_ok_iff.mpr rfl, bind_eq_ok.mpr ⟨run.model, held,
      bind_eq_ok.mpr ⟨_, (modelScope_words_iff counted).mpr ⟨rfl, fits, rfl⟩,
        bind_eq_ok.mpr ⟨_, (modelScope_words_iff countedToo).mpr ⟨rfl, fitsToo, rfl⟩,
          bind_eq_ok.mpr ⟨run.timeout, last, rfl⟩⟩⟩⟩⟩

end ModelRun

/-! ### Scripts -/

namespace ScriptSections

variable {sections final : ScriptSections} {names : List Bytes}

/-- A word that stands for itself wherever it stands. -/
structure Plain (word : Bytes) : Prop where
  inputs : Text.isKeyword word "INPUTS" = false
  outputs : Text.isKeyword word "OUTPUTS" = false
  timeout : Text.isKeyword word "TIMEOUT" = false
  list : word ≠ listMark

structure Opened (sections : ScriptSections) : Prop where
  isOpen : sections.current ≠ .none
  list : sections.current = .list → sections.list.isSome = true

def extend (sections : ScriptSections) (names : List String) : ScriptSections :=
  match sections.current with
  | .inputs => { sections with inputs := sections.inputs ++ names }
  | .list => { sections with list := sections.list.map (· ++ names) }
  | .outputs => { sections with outputs := sections.outputs ++ names }
  | .none => sections

theorem extend_nil (sections : ScriptSections) : sections.extend [] = sections := by
  obtain ⟨current, inputs, list, outputs, seenInputs, timeout⟩ := sections
  cases current <;> simp [extend]

theorem extend_extend (sections : ScriptSections) (names others : List String) :
    (sections.extend names).extend others = sections.extend (names ++ others) := by
  obtain ⟨current, inputs, list, outputs, seenInputs, timeout⟩ := sections
  cases current <;> simp [extend, Function.comp_def]

theorem Opened.extend (opened : sections.Opened) (names : List String) :
    (sections.extend names).Opened := by
  obtain ⟨current, inputs, list, outputs, seenInputs, timeout⟩ := sections
  obtain ⟨isOpen, there⟩ := opened
  constructor
  · cases current <;> exact isOpen
  · cases current with
    | list => simpa [ScriptSections.extend] using there
    | _ => exact nofun

theorem addName_eq (opened : sections.Opened) (name : String) :
    sections.addName name = .ok (sections.extend [name]) := by
  obtain ⟨current, inputs, list, outputs, seenInputs, timeout⟩ := sections
  obtain ⟨isOpen, there⟩ := opened
  cases current with
  | none => exact absurd rfl isOpen
  | list =>
      obtain ⟨names, rfl⟩ := Option.isSome_iff_exists.mp (there rfl)
      rfl
  | _ => rfl

theorem read_names (opened : sections.Opened) (plain : ∀ name ∈ names, Plain name) :
    sections.read (names ++ rest) = .ok final ↔
      ∃ listed, names = listed.map Text.encode ∧
        (sections.extend listed).read rest = .ok final := by
  -- Every name that is added leaves the section open for the next one.
  induction names generalizing sections with
  | nil =>
      constructor
      · intro read
        exact ⟨[], rfl, by rwa [extend_nil]⟩
      · rintro ⟨listed, empty, read⟩
        obtain rfl := List.map_eq_nil_iff.mp empty.symm
        rwa [extend_nil] at read
  | cons word others ih =>
      obtain ⟨first, behind⟩ := List.forall_mem_cons.mp plain
      have onward (name : String) := ih (opened.extend [name]) behind
      have step : sections.read (word :: (others ++ rest)) =
          text word >>= fun name => (sections.extend [name]).read (others ++ rest) := by
        rw [read.eq_def]
        simp only [first.inputs, first.outputs, first.timeout, Bool.false_eq_true, if_false,
          if_neg first.list, addName_eq opened]
        cases text word <;> rfl
      rw [List.cons_append, step, bind_eq_ok]
      constructor
      · rintro ⟨name, spelled, read⟩
        obtain ⟨listed, rfl, readOn⟩ := (onward name).mp read
        rw [extend_extend] at readOn
        exact ⟨name :: listed, by rw [text_eq_ok_iff.mp spelled, List.map_cons], readOn⟩
      · rintro ⟨listed, same, read⟩
        cases listed with
        | nil => cases same
        | cons name listed =>
            obtain ⟨rfl, rfl⟩ := List.cons.inj same
            refine ⟨name, text_eq_ok_iff.mpr rfl, (onward name).mpr ⟨listed, rfl, ?_⟩⟩
            rw [extend_extend]
            exact read

theorem read_inputs (unseen : sections.seenInputs = false) :
    sections.read (Text.encode "INPUTS" :: rest) =
      { sections with current := .inputs, seenInputs := true }.read rest := by
  rw [read.eq_def]
  simp only [Text.isKeyword_encode, openInputs, unseen, Bool.false_eq_true, if_false, if_true]

theorem read_outputs (sections : ScriptSections) (rest : List Bytes) :
    sections.read (Text.encode "OUTPUTS" :: rest) =
      { sections with current := .outputs }.read rest := by
  have other : Text.isKeyword (Text.encode "OUTPUTS") "INPUTS" = false := by decide +kernel
  rw [read.eq_def]
  simp only [other, Text.isKeyword_encode, Bool.false_eq_true, if_false, if_true]

theorem read_list (within : sections.current = .inputs) (first : sections.list = none)
    (plain : ∀ name ∈ names, Plain name) :
    sections.read (listMark :: (names ++ rest)) = .ok final ↔
      ∃ listed, names = listed.map Text.encode ∧
        { sections with current := .list, list := some listed }.read rest = .ok final := by
  obtain ⟨current, inputs, list, outputs, seenInputs, timeout⟩ := sections
  have others : Text.isKeyword listMark "INPUTS" = false ∧
      Text.isKeyword listMark "OUTPUTS" = false ∧ Text.isKeyword listMark "TIMEOUT" = false := by
    decide +kernel
  have opened : Opened ⟨.list, inputs, some [], outputs, seenInputs, timeout⟩ :=
    ⟨nofun, fun _ => rfl⟩
  cases within
  cases first
  rw [read.eq_def]
  simp only [others, openList, Bool.false_eq_true, if_false, if_true]
  exact read_names opened plain

theorem read_timeout (untimed : sections.timeout = none) :
    sections.read (timeoutWords limit) = .ok final ↔
      ∃ timeout, Timed limit timeout ∧ { sections with timeout := timeout } = final := by
  cases limit with
  | none =>
      rw [timeoutWords, read, Except.ok.injEq]
      constructor
      · rintro rfl
        exact ⟨none, .none, by rw [← untimed]⟩
      · rintro ⟨timeout, timed, rfl⟩
        cases timed
        rw [← untimed]
  | some value =>
      have others : Text.isKeyword (Text.encode "TIMEOUT") "INPUTS" = false ∧
          Text.isKeyword (Text.encode "TIMEOUT") "OUTPUTS" = false := by decide +kernel
      have step : sections.read (timeoutWords (some value)) =
          Command.timeout value >>= fun milliseconds =>
            .ok { sections with timeout := some milliseconds } := by
        simp only [timeoutWords, read, others, Text.isKeyword_encode, Bool.false_eq_true, if_false,
          if_true]
        cases Command.timeout value <;> rfl
      rw [step, bind_eq_ok]
      constructor
      · rintro ⟨milliseconds, positive, same⟩
        exact ⟨some milliseconds, .some (timeout_eq_ok_iff.mp positive), Except.ok.inj same⟩
      · rintro ⟨timeout, timed, rfl⟩
        cases timed with
        | some positive => exact ⟨_, timeout_eq_ok_iff.mpr positive, rfl⟩

theorem read_given {outputs : List Bytes} (plain : ∀ name ∈ outputs, Plain name)
    (untimed : sections.timeout = none) :
    sections.read (Text.encode "OUTPUTS" :: (outputs ++ timeoutWords limit)) = .ok final ↔
      ∃ given timeout, outputs = given.map Text.encode ∧ Timed limit timeout ∧
        { sections with
          current := .outputs
          outputs := sections.outputs ++ given
          timeout := timeout } = final := by
  obtain ⟨current, inputs, list, before, seenInputs, timeout⟩ := sections
  have opened : Opened ⟨.outputs, inputs, list, before, seenInputs, timeout⟩ :=
    ⟨nofun, nofun⟩
  have untimedStill (given : List String) :
      (extend ⟨.outputs, inputs, list, before, seenInputs, timeout⟩ given).timeout = none := untimed
  rw [read_outputs, read_names opened plain]
  constructor
  · rintro ⟨given, spelled, behind⟩
    obtain ⟨milliseconds, timed, same⟩ := (read_timeout (untimedStill given)).mp behind
    exact ⟨given, milliseconds, spelled, timed, same⟩
  · rintro ⟨given, milliseconds, spelled, timed, same⟩
    exact ⟨given, spelled, (read_timeout (untimedStill given)).mpr ⟨milliseconds, timed, same⟩⟩

end ScriptSections

namespace ScriptScopes

variable {scopes final : ScriptScopes} {scope : Scope} {count : Bytes} {words : List Bytes}

theorem read_words (counted : Decimal.positive? count = some words.length)
    (fresh : scopes.has scope = false) :
    scopes.read (Text.encode scope.keyword :: count :: (words ++ rest)) = .ok final ↔
      ∃ names, words = names.map Text.encode ∧ (scopes.add names scope).read rest = .ok final := by
  rw [read_scope (Text.isKeyword_encode _) fresh, bind_eq_ok]
  constructor
  · rintro ⟨⟨names, behind⟩, listed, read⟩
    obtain ⟨rfl, rfl⟩ := (counted_words_iff counted).mp (Scope.names_eq_ok_iff.mp listed)
    exact ⟨names, rfl, read⟩
  · rintro ⟨names, spelled, read⟩
    have listed : scope.names (count :: (words ++ rest)) = .ok (names, rest) :=
      Scope.names_eq_ok_iff.mpr ((counted_words_iff counted).mpr ⟨spelled, rfl⟩)
    exact ⟨(names, rest), listed, read⟩

theorem read_list (counted : Decimal.positive? count = some words.length) :
    scopes.read (Text.encode "LIST_INPUTS" :: count :: (words ++ rest)) = .ok final ↔
      ∃ names, words = names.map Text.encode ∧
        { scopes with lists := scopes.lists ++ [names] }.read rest = .ok final := by
  have fresh : scopes.has .listInputs = false := rfl
  exact read_words counted fresh

theorem read_timeout (untimed : scopes.timeout = none) :
    scopes.read (timeoutWords limit) = .ok final ↔
      ∃ timeout, Timed limit timeout ∧ { scopes with timeout := timeout } = final := by
  constructor
  · intro done
    cases limit with
    | none =>
        rw [timeoutWords, read] at done
        cases done
        exact ⟨none, .none, by rw [← untimed]⟩
    | some value =>
        rw [timeoutWords, read, if_pos (Text.isKeyword_encode _)] at done
        obtain ⟨milliseconds, closed, done⟩ := bind_eq_ok.mp done
        cases done
        obtain ⟨_, positive, same⟩ := closing_eq_ok_iff.mp closed
        cases same
        exact ⟨_, .some positive, rfl⟩
  · rintro ⟨timeout, timed, rfl⟩
    exact read_of_ending untimed (ending_iff_timed.mpr timed)

theorem read_given {outputs : List Bytes}
    (counted : Decimal.positive? count = some outputs.length)
    (fresh : scopes.outputs = none) (untimed : scopes.timeout = none) :
    scopes.read (Text.encode "OUTPUTS" :: count :: (outputs ++ timeoutWords limit)) = .ok final ↔
      ∃ given timeout, outputs = given.map Text.encode ∧ Timed limit timeout ∧
        { scopes with outputs := some given, timeout := timeout } = final := by
  have absent : scopes.has .outputs = false := by
    rw [has, fresh]
    rfl
  have untimedStill (given : List String) : (scopes.add given .outputs).timeout = none := untimed
  rw [show "OUTPUTS" = Scope.outputs.keyword from rfl, read_words counted absent]
  constructor
  · rintro ⟨given, spelled, behind⟩
    obtain ⟨timeout, timed, same⟩ := (read_timeout (untimedStill given)).mp behind
    exact ⟨given, timeout, spelled, timed, same⟩
  · rintro ⟨given, timeout, spelled, timed, same⟩
    exact ⟨given, spelled, (read_timeout (untimedStill given)).mpr ⟨timeout, timed, same⟩⟩

end ScriptScopes

/-- What both commands say about the names of a script call and the time for it. -/
structure ScriptNames where
  inputs : List String
  list : Option (List String)
  outputs : List String
  timeout : Option Nat

namespace ScriptNames

/-- The names in the words of a call. -/
structure SpelledBy (names : ScriptNames) (limit : Option Bytes) (inputs : List Bytes)
    (list : Option (List Bytes)) (outputs : List Bytes) : Prop where
  inputs : inputs = names.inputs.map Text.encode
  list : list = names.list.map (List.map Text.encode)
  outputs : outputs = names.outputs.map Text.encode
  timed : Timed limit names.timeout

/-- As the deprecated command has read them. -/
def sections (names : ScriptNames) : ScriptSections :=
  ⟨.outputs, names.inputs, names.list, names.outputs, true, names.timeout⟩

def scopes (names : ScriptNames) : ScriptScopes :=
  ⟨some names.inputs, none, some names.outputs, none, names.list.toList, names.timeout⟩

def toRun (names : ScriptNames) (script : Script) (function : String) : ScriptRun :=
  { script := script
    function := function
    keys := []
    inputs := names.inputs ++ names.list.getD []
    listSizes := names.list.toList.map List.length
    outputs := names.outputs
    arguments := []
    timeout := names.timeout }

theorem toRun_scopes (names : ScriptNames) (script : Script) (function : String) :
    names.scopes.toRun script function = names.toRun script function := by
  obtain ⟨inputs, list, outputs, timeout⟩ := names
  cases list <;> simp [scopes, toRun, ScriptScopes.toRun]

def markedWords : Option (List Bytes) → List Bytes
  | none => []
  | some list => ScriptSections.listMark :: list

def listWords (count : Bytes) : Option (List Bytes) → List Bytes
  | none => []
  | some list => Text.encode "LIST_INPUTS" :: count :: list

variable {inputs outputs : List Bytes} {list : Option (List Bytes)}

theorem read_sections {final : ScriptSections}
    (plainInputs : ∀ name ∈ inputs, ScriptSections.Plain name)
    (plainList : ∀ names ∈ list, ∀ name ∈ names, ScriptSections.Plain name)
    (plainOutputs : ∀ name ∈ outputs, ScriptSections.Plain name) :
    ScriptSections.empty.read (Text.encode "INPUTS" :: (inputs ++ (markedWords list ++
        Text.encode "OUTPUTS" :: (outputs ++ timeoutWords limit)))) = .ok final ↔
      ∃ names : ScriptNames,
        names.SpelledBy limit inputs list outputs ∧ names.sections = final := by
  have opened : ScriptSections.Opened
      { ScriptSections.empty with current := .inputs, seenInputs := true } := ⟨nofun, nofun⟩
  rw [ScriptSections.read_inputs rfl, ScriptSections.read_names opened plainInputs]
  cases list with
  | none =>
      rw [markedWords, List.nil_append]
      constructor
      · rintro ⟨positional, spelled, behind⟩
        obtain ⟨given, timeout, spelledToo, timed, same⟩ :=
          (ScriptSections.read_given plainOutputs rfl).mp behind
        exact ⟨⟨positional, none, given, timeout⟩, ⟨spelled, rfl, spelledToo, timed⟩, same⟩
      · rintro ⟨⟨positional, listed, given, timeout⟩, ⟨spelled, absent, spelledToo, timed⟩, same⟩
        obtain rfl := Option.map_eq_none_iff.mp absent.symm
        exact ⟨positional, spelled, (ScriptSections.read_given plainOutputs rfl).mpr
          ⟨given, timeout, spelledToo, timed, same⟩⟩
  | some words =>
      have plainWords := plainList words rfl
      simp only [markedWords, List.cons_append]
      constructor
      · rintro ⟨positional, spelled, behind⟩
        obtain ⟨listed, spelledList, behind⟩ :=
          (ScriptSections.read_list rfl rfl plainWords).mp behind
        obtain ⟨given, timeout, spelledToo, timed, same⟩ :=
          (ScriptSections.read_given plainOutputs rfl).mp behind
        exact ⟨⟨positional, some listed, given, timeout⟩,
          ⟨spelled, congrArg some spelledList, spelledToo, timed⟩, same⟩
      · rintro ⟨⟨positional, listed, given, timeout⟩, ⟨spelled, there, spelledToo, timed⟩, same⟩
        obtain ⟨names, rfl, spelledList⟩ := Option.map_eq_some_iff.mp there.symm
        exact ⟨positional, spelled, (ScriptSections.read_list rfl rfl plainWords).mpr
          ⟨names, spelledList.symm, (ScriptSections.read_given plainOutputs rfl).mpr
            ⟨given, timeout, spelledToo, timed, same⟩⟩⟩

theorem read_scopes {final : ScriptScopes} {inputCount listCount outputCount : Bytes}
    (counted : Decimal.positive? inputCount = some inputs.length)
    (countedList : ∀ names ∈ list, Decimal.positive? listCount = some names.length)
    (countedToo : Decimal.positive? outputCount = some outputs.length) :
    ScriptScopes.empty.read (Text.encode "INPUTS" :: inputCount :: (inputs ++
        (listWords listCount list ++
          Text.encode "OUTPUTS" :: outputCount :: (outputs ++ timeoutWords limit)))) = .ok final ↔
      ∃ names : ScriptNames, names.SpelledBy limit inputs list outputs ∧ names.scopes = final := by
  rw [show "INPUTS" = Scope.inputs.keyword from rfl, ScriptScopes.read_words counted rfl]
  cases list with
  | none =>
      rw [listWords, List.nil_append]
      constructor
      · rintro ⟨positional, spelled, behind⟩
        obtain ⟨given, timeout, spelledToo, timed, same⟩ :=
          (ScriptScopes.read_given countedToo rfl rfl).mp behind
        exact ⟨⟨positional, none, given, timeout⟩, ⟨spelled, rfl, spelledToo, timed⟩, same⟩
      · rintro ⟨⟨positional, listed, given, timeout⟩, ⟨spelled, absent, spelledToo, timed⟩, same⟩
        obtain rfl := Option.map_eq_none_iff.mp absent.symm
        exact ⟨positional, spelled, (ScriptScopes.read_given countedToo rfl rfl).mpr
          ⟨given, timeout, spelledToo, timed, same⟩⟩
  | some words =>
      have countedWords := countedList words rfl
      simp only [listWords, List.cons_append]
      constructor
      · rintro ⟨positional, spelled, behind⟩
        obtain ⟨listed, spelledList, behind⟩ := (ScriptScopes.read_list countedWords).mp behind
        obtain ⟨given, timeout, spelledToo, timed, same⟩ :=
          (ScriptScopes.read_given countedToo rfl rfl).mp behind
        exact ⟨⟨positional, some listed, given, timeout⟩,
          ⟨spelled, congrArg some spelledList, spelledToo, timed⟩, same⟩
      · rintro ⟨⟨positional, listed, given, timeout⟩, ⟨spelled, there, spelledToo, timed⟩, same⟩
        obtain ⟨names, rfl, spelledList⟩ := Option.map_eq_some_iff.mp there.symm
        exact ⟨positional, spelled, (ScriptScopes.read_list countedWords).mpr
          ⟨names, spelledList.symm, (ScriptScopes.read_given countedToo rfl rfl).mpr
            ⟨given, timeout, spelledToo, timed, same⟩⟩⟩

end ScriptNames

namespace ScriptRun

def runWords (key function : Bytes) (limit : Option Bytes) (inputs : List Bytes)
    (list : Option (List Bytes)) (outputs : List Bytes) : List Bytes :=
  Text.encode "AI.SCRIPTRUN" :: key :: function :: Text.encode "INPUTS" ::
    (inputs ++ (ScriptNames.markedWords list ++
      Text.encode "OUTPUTS" :: (outputs ++ timeoutWords limit)))

def executeWords (key function inputCount listCount outputCount : Bytes) (limit : Option Bytes)
    (inputs : List Bytes) (list : Option (List Bytes)) (outputs : List Bytes) : List Bytes :=
  Text.encode "AI.SCRIPTEXECUTE" :: key :: function :: Text.encode "INPUTS" :: inputCount ::
    (inputs ++ (ScriptNames.listWords listCount list ++
      Text.encode "OUTPUTS" :: outputCount :: (outputs ++ timeoutWords limit)))

def Says (keyspace : Keyspace) (key function : Bytes) (limit : Option Bytes)
    (inputs : List Bytes) (list : Option (List Bytes)) (outputs : List Bytes) (run : ScriptRun) :
    Prop :=
  ∃ name script called names, key = Text.encode name ∧ keyspace.getScript name = .ok script ∧
    functionName function = .ok called ∧
    ScriptNames.SpelledBy names limit inputs list outputs ∧ names.toRun script called = run

variable {function : Bytes} {inputs outputs : List Bytes} {list : Option (List Bytes)}
  {run : ScriptRun}

theorem ofRun_eq_ok_iff
    (plain : ∀ name ∈ inputs ++ list.getD [] ++ outputs, ScriptSections.Plain name) :
    ofRun keyspace (runWords key function limit inputs list outputs) = .ok run ↔
      Says keyspace key function limit inputs list outputs run := by
  have plainInputs : ∀ name ∈ inputs, ScriptSections.Plain name := fun name member =>
    plain name (List.mem_append_left _ (List.mem_append_left _ member))
  have plainList : ∀ names ∈ list, ∀ name ∈ names, ScriptSections.Plain name := by
    rintro names rfl name member
    exact plain name (List.mem_append_left _ (List.mem_append_right _ member))
  have plainOutputs : ∀ name ∈ outputs, ScriptSections.Plain name := fun name member =>
    plain name (List.mem_append_right _ member)
  unfold ofRun runWords
  dsimp only [List.isEmpty_cons]
  rw [if_neg Bool.false_ne_true]
  constructor
  · intro read
    obtain ⟨name, spelled, read⟩ := bind_eq_ok.mp read
    obtain ⟨script, held, read⟩ := bind_eq_ok.mp read
    obtain ⟨called, named, read⟩ := bind_eq_ok.mp read
    obtain ⟨sections, listed, read⟩ := bind_eq_ok.mp read
    obtain ⟨names, spells, rfl⟩ :=
      (ScriptNames.read_sections plainInputs plainList plainOutputs).mp listed
    exact ⟨name, script, called, names, text_eq_ok_iff.mp spelled, held, named, spells,
      Except.ok.inj read⟩
  · rintro ⟨name, script, called, names, spelled, held, named, spells, rfl⟩
    have listed :=
      (ScriptNames.read_sections plainInputs plainList plainOutputs).mpr ⟨names, spells, rfl⟩
    exact bind_eq_ok.mpr ⟨name, text_eq_ok_iff.mpr spelled, bind_eq_ok.mpr ⟨script, held,
      bind_eq_ok.mpr ⟨called, named, bind_eq_ok.mpr ⟨_, listed, rfl⟩⟩⟩⟩

theorem ofExecute_eq_ok_iff {inputCount listCount outputCount : Bytes}
    (counted : Decimal.positive? inputCount = some inputs.length)
    (countedList : ∀ names ∈ list, Decimal.positive? listCount = some names.length)
    (countedToo : Decimal.positive? outputCount = some outputs.length) :
    ofExecute keyspace (executeWords key function inputCount listCount outputCount limit inputs
        list outputs) = .ok run ↔
      Says keyspace key function limit inputs list outputs run := by
  unfold ofExecute executeWords
  constructor
  · intro read
    obtain ⟨name, spelled, read⟩ := bind_eq_ok.mp read
    obtain ⟨script, held, read⟩ := bind_eq_ok.mp read
    obtain ⟨called, named, read⟩ := bind_eq_ok.mp read
    obtain ⟨scopes, listed, read⟩ := bind_eq_ok.mp read
    obtain ⟨names, spells, rfl⟩ :=
      (ScriptNames.read_scopes counted countedList countedToo).mp listed
    exact ⟨name, script, called, names, text_eq_ok_iff.mp spelled, held, named, spells,
      (names.toRun_scopes script called).symm.trans (Except.ok.inj read)⟩
  · rintro ⟨name, script, called, names, spelled, held, named, spells, rfl⟩
    have listed :=
      (ScriptNames.read_scopes counted countedList countedToo).mpr ⟨names, spells, rfl⟩
    refine bind_eq_ok.mpr ⟨name, text_eq_ok_iff.mpr spelled, bind_eq_ok.mpr ⟨script, held,
      bind_eq_ok.mpr ⟨called, named, bind_eq_ok.mpr ⟨_, listed, ?_⟩⟩⟩⟩
    rw [names.toRun_scopes]
    rfl

end ScriptRun

/-! ### Agreement -/

/-- A deprecated command gives a run exactly if the command does that replaces it, and the same one,
whether key, function, names and timeout are well-formed or not. For models it is enough that no
input is the output keyword, for scripts all names have to stand for themselves. Counts are texts
for how many names there are, so there are some. -/
theorem deprecated_runs_agree (keyspace : Keyspace) (key : Bytes) (limit : Option Bytes) :
    (∀ inputs outputs inputCount outputCount,
      (∀ input ∈ inputs, Text.isKeyword input "OUTPUTS" = false) →
      Decimal.positive? inputCount = some inputs.length →
      Decimal.positive? outputCount = some outputs.length →
      ∀ run, ModelRun.ofRun keyspace (ModelRun.runWords key limit inputs outputs) = .ok run ↔
        ModelRun.ofExecute keyspace
          (ModelRun.executeWords key inputCount outputCount limit inputs outputs) = .ok run) ∧
    ∀ function inputs list outputs inputCount listCount outputCount,
      (∀ name ∈ inputs ++ list.getD [] ++ outputs, ScriptSections.Plain name) →
      Decimal.positive? inputCount = some inputs.length →
      (∀ names ∈ list, Decimal.positive? listCount = some names.length) →
      Decimal.positive? outputCount = some outputs.length →
      ∀ run,
        ScriptRun.ofRun keyspace (ScriptRun.runWords key function limit inputs list outputs) =
            .ok run ↔
          ScriptRun.ofExecute keyspace
            (ScriptRun.executeWords key function inputCount listCount outputCount limit inputs list
              outputs) = .ok run := by
  have several {count : Bytes} {names : List Bytes}
      (counted : Decimal.positive? count = some names.length) : names ≠ [] :=
    List.length_pos_iff.mp (Decimal.positive?_eq_some_iff.mp counted).1
  constructor
  · intro inputs outputs inputCount outputCount separate counted countedToo run
    rw [ModelRun.ofRun_eq_ok_iff separate (several counted) (several countedToo),
      ModelRun.ofExecute_eq_ok_iff counted countedToo]
  · intro function inputs list outputs inputCount listCount outputCount plain counted countedList
      countedToo run
    rw [ScriptRun.ofRun_eq_ok_iff plain,
      ScriptRun.ofExecute_eq_ok_iff counted countedList countedToo]

end Command

namespace Sample

def copying : Model :=
  { id := 0
    key := "copy"
    definition := ⟨.torch, .cpu, "", [], [], ⟨0, 0, 0⟩⟩
    inputCount := 1
    outputCount := 1
    blob := []
    registration := 0
    handle := ⟨1, 1, Except.ok⟩ }

def copies : Keyspace := scripted.set "copy" (.model copying)

end Sample

namespace Command

/-- A model with an input and an output that are named like keywords, and a script with a list. -/
theorem deprecated_runs_agree_with_names :
    (∃ run : ModelRun, run.inputs = ["inputs"] ∧ run.outputs = ["OUTPUTS"] ∧
      run.timeout = some 10 ∧
      ModelRun.ofRun Sample.copies (ModelRun.runWords (Text.encode "copy")
        (some (Text.encode "10")) [Text.encode "inputs"] [Text.encode "OUTPUTS"]) = .ok run) ∧
    ∃ run : ScriptRun, run.inputs = ["a", "KEYS", "é"] ∧ run.listSizes = [2] ∧
      ScriptRun.ofRun Sample.copies (ScriptRun.runWords (Text.encode "sums") (Text.encode "sum")
        none [Text.encode "a"] (some [Text.encode "KEYS", Text.encode "é"])
        [Text.encode "b"]) = .ok run := by
  have one : Decimal.positive? (Text.encode "1") = some 1 := by decide +kernel
  have two : Decimal.positive? (Text.encode "+02") = some 2 := by decide +kernel
  constructor
  · have separate : ∀ input ∈ [Text.encode "inputs"], Text.isKeyword input "OUTPUTS" = false := by
      decide +kernel
    have told : ModelRun.Says Sample.copies (Text.encode "copy") (some (Text.encode "10"))
        [Text.encode "inputs"] [Text.encode "OUTPUTS"]
        ⟨Sample.copying, ["inputs"], ["OUTPUTS"], some 10⟩ :=
      ⟨⟨"copy", rfl, rfl⟩, rfl, rfl, rfl, rfl, .some (by decide +kernel)⟩
    have read := (ModelRun.ofExecute_eq_ok_iff one one).mpr told
    exact ⟨_, rfl, rfl, rfl,
      ((deprecated_runs_agree Sample.copies _ _).1 _ _ _ _ separate one one _).mpr read⟩
  · have plain : ∀ name ∈ ["a", "KEYS", "é", "b"].map Text.encode, ScriptSections.Plain name := by
      have words : ∀ name ∈ ["a", "KEYS", "é", "b"].map Text.encode,
          Text.isKeyword name "INPUTS" = false ∧ Text.isKeyword name "OUTPUTS" = false ∧
            Text.isKeyword name "TIMEOUT" = false ∧ name ≠ ScriptSections.listMark := by
        decide +kernel
      intro name member
      obtain ⟨inputs, outputs, timeout, list⟩ := words name member
      exact ⟨inputs, outputs, timeout, list⟩
    have called : functionName (Text.encode "sum") = .ok "sum" :=
      functionName_eq_ok_iff.mpr ⟨rfl, by decide +kernel⟩
    have counted : ∀ names ∈ some [Text.encode "KEYS", Text.encode "é"],
        Decimal.positive? (Text.encode "+02") = some names.length := by
      rintro names ⟨⟩
      exact two
    have told : ScriptRun.Says Sample.copies (Text.encode "sums") (Text.encode "sum") none
        [Text.encode "a"] (some [Text.encode "KEYS", Text.encode "é"]) [Text.encode "b"]
        ⟨Sample.summing, "sum", [], ["a", "KEYS", "é"], [2], ["b"], [], none⟩ :=
      ⟨"sums", Sample.summing, "sum", ⟨["a"], some ["KEYS", "é"], ["b"], none⟩, rfl, rfl, called,
        ⟨rfl, rfl, rfl, .none⟩, rfl⟩
    have read := (ScriptRun.ofExecute_eq_ok_iff one counted one).mpr told
    exact ⟨_, rfl, rfl, ((deprecated_runs_agree Sample.copies _ _).2 _ _ _ _ _ _ _ plain one counted
      one _).mpr read⟩

end Command

end InferenceStore
