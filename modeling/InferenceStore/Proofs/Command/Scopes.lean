import InferenceStore.Proofs.Command.Executions
import Mathlib.Data.List.Induction
import Mathlib.Data.List.Rotate

/-
The scopes of a script call. A scope says by its count where it ends, so scopes are read one by one
whatever their names look like, and each goes to a place of its own. Only the lists of inputs share
one, so the order of the scopes matters among them alone.
-/

namespace InferenceStore

namespace Command

variable {rest : List Bytes}

/-! ### Written scopes -/

/-- A scope as it stands in a call: its keyword in any case, a count and so many names. -/
structure WrittenScope where
  scope : Scope
  names : List String
  keyword : Bytes
  count : Bytes
  named : Text.isKeyword keyword scope.keyword = true
  counted : Decimal.positive? count = some names.length

namespace WrittenScope

def words (written : WrittenScope) : List Bytes :=
  written.keyword :: written.count :: written.names.map Text.encode

def gathered (scope : Scope) (all : List WrittenScope) : List (List String) :=
  (all.filter fun written => written.scope = scope).map names

/-- Every scope stands at most once, but for lists of inputs. -/
def Once (all : List WrittenScope) : Prop :=
  ∀ scope, scope ≠ .listInputs → (gathered scope all).length ≤ 1

/-- The same scopes in another order, with the lists of inputs in the same one. -/
structure Rearranges (arrangement all : List WrittenScope) : Prop where
  perm : arrangement.Perm all
  lists : gathered .listInputs arrangement = gathered .listInputs all

variable {all arrangement : List WrittenScope} {scope : Scope}

theorem length_gathered_cons (written : WrittenScope) :
    (gathered scope (written :: all)).length =
      (decide (written.scope = scope)).toNat + (gathered scope all).length := by
  by_cases same : written.scope = scope
  · simp [gathered, same, Nat.add_comm]
  · simp [gathered, same]

theorem gathered_perm (perm : arrangement.Perm all) (scope : Scope) :
    (gathered scope arrangement).Perm (gathered scope all) :=
  (perm.filter _).map names

theorem Rearranges.gathered_eq (rearranges : Rearranges arrangement all) (once : Once all)
    (scope : Scope) : gathered scope arrangement = gathered scope all := by
  by_cases list : scope = .listInputs
  · rw [list]
    exact rearranges.lists
  · have single := once scope list
    have perm := gathered_perm rearranges.perm scope
    cases found : gathered scope all with
    | nil =>
        rw [found] at perm
        exact perm.eq_nil
    | cons names others =>
        rw [found] at single perm
        have alone : others = [] := List.eq_nil_of_length_eq_zero (Nat.le_zero.mp
          (Nat.le_of_succ_le_succ single))
        rw [alone] at perm ⊢
        exact List.perm_singleton.mp perm

theorem Rearranges.once (rearranges : Rearranges arrangement all) (once : Once all) :
    Once arrangement := by
  intro scope single
  rw [rearranges.gathered_eq once scope]
  exact once scope single

end WrittenScope

open WrittenScope

/-! ### Reading scopes -/

namespace ScriptScopes

variable {scopes : ScriptScopes} {scope : Scope} {keyword : Bytes} {all : List WrittenScope}

theorem read_repeated (named : Text.isKeyword keyword scope.keyword = true)
    (repeated : scopes.has scope = true) (rest : List Bytes) :
    scopes.read (keyword :: rest) = .error (.malformed (.scopeRepeated scope.keyword)) := by
  rw [read, if_neg (Scope.not_timeout named)]
  simp only [Scope.ofKeyword?_eq_some_iff.mpr named, repeated, if_true]

def enter (scopes : ScriptScopes) (written : WrittenScope) : ScriptScopes :=
  scopes.add written.names written.scope

theorem has_enter (scopes : ScriptScopes) (written : WrittenScope)
    (single : scope ≠ .listInputs) :
    (scopes.enter written).has scope = (scopes.has scope || decide (written.scope = scope)) := by
  obtain ⟨entered, names, keyword, count, named, counted⟩ := written
  cases entered <;> cases scope <;> simp [enter, add, has] at single ⊢

/-- No scope that was there comes again, and none comes twice. -/
def Admits (scopes : ScriptScopes) (all : List WrittenScope) : Prop :=
  ∀ scope, scope ≠ .listInputs →
    (scopes.has scope).toNat + (gathered scope all).length ≤ 1

theorem Admits.fresh {written : WrittenScope} (admits : scopes.Admits (written :: all)) :
    scopes.has written.scope = false := by
  by_cases list : written.scope = .listInputs
  · rw [list]
    rfl
  · have single := admits written.scope list
    rw [length_gathered_cons, decide_eq_true rfl, Bool.toNat_true] at single
    refine Bool.eq_false_iff.mpr fun held => ?_
    rw [held, Bool.toNat_true] at single
    omega

theorem Admits.enter {written : WrittenScope} (admits : scopes.Admits (written :: all)) :
    (scopes.enter written).Admits all := by
  intro scope single
  have before := admits scope single
  rw [length_gathered_cons] at before
  have grows : (scopes.has scope || decide (written.scope = scope)).toNat ≤
      (scopes.has scope).toNat + (decide (written.scope = scope)).toNat := by
    cases scopes.has scope <;> cases decide (written.scope = scope) <;> decide
  rw [has_enter scopes written single]
  omega

theorem read_written (admits : scopes.Admits all) (rest : List Bytes) :
    scopes.read (all.flatMap words ++ rest) = (all.foldl enter scopes).read rest := by
  -- What is entered is no longer to come, so the scopes admit the rest again.
  induction all generalizing scopes with
  | nil => rfl
  | cons written others ih =>
      have names : written.scope.names
          (written.count :: (written.names.map Text.encode ++ (others.flatMap words ++ rest))) =
            .ok (written.names, others.flatMap words ++ rest) :=
        Scope.names_eq_ok_iff.mpr ⟨written.count, written.counted, rfl⟩
      rw [List.flatMap_cons, List.append_assoc, List.foldl_cons, ← ih admits.enter]
      simp only [words, List.cons_append]
      rw [read_scope written.named admits.fresh]
      simp only [names, bind, Except.bind]
      rfl

/-- What all scopes together say, each kind for itself. -/
theorem foldl_enter (all : List WrittenScope) : all.foldl enter empty =
    { inputs := (gathered .inputs all).getLast?
      keys := (gathered .keys all).getLast?
      outputs := (gathered .outputs all).getLast?
      arguments := (gathered .arguments all).getLast?
      lists := gathered .listInputs all
      timeout := none } := by
  induction all using List.reverseRecOn with
  | nil => rfl
  | append_singleton all written ih =>
      rw [List.foldl_append, ih]
      obtain ⟨scope, names, keyword, count, named, counted⟩ := written
      cases scope <;> simp [gathered, enter, add]

theorem admits_empty (once : Once all) : empty.Admits all := by
  intro scope single
  have unseen : empty.has scope = false := by cases scope <;> rfl
  rw [unseen, Bool.toNat_false, Nat.zero_add]
  exact once scope single

theorem has_foldl_enter (single : scope ≠ .listInputs) (there : gathered scope all ≠ []) :
    (all.foldl enter empty).has scope = true := by
  have last := List.getLast?_isSome.mpr there
  rw [foldl_enter]
  cases scope with
  | listInputs => exact absurd rfl single
  | _ => exact last

end ScriptScopes

/-! ### Calls -/

theorem functionName_eq_ok_iff {argument : Bytes} {function : String} :
    functionName argument = .ok function ↔ argument = Text.encode function ∧
      ∀ keyword ∈ scopeKeywords, Text.isKeyword argument keyword = false := by
  have plain : scopeKeywords.any (Text.isKeyword argument) = false ↔
      ∀ keyword ∈ scopeKeywords, Text.isKeyword argument keyword = false := by
    simp only [List.any_eq_false, Bool.not_eq_true]
  unfold functionName
  split
  · rename_i reserved
    constructor
    · nofun
    · rintro ⟨_, free⟩
      rw [plain.mpr free] at reserved
      cases reserved
  · rename_i free
    rw [text_eq_ok_iff]
    exact ⟨fun same => ⟨same, plain.mp (Bool.eq_false_iff.mpr free)⟩, And.left⟩

namespace ScriptRun

structure Callable (keyspace : Keyspace) (key : String) (script : Script) (function : String) :
    Prop where
  held : keyspace.get? key = some (.script script)
  plain : ∀ keyword ∈ scopeKeywords, Text.isKeyword (Text.encode function) keyword = false

def call (command : Bytes) (key function : String) (rest : List Bytes) : List Bytes :=
  command :: Text.encode key :: Text.encode function :: rest

/-- What a call with these scopes says. Names in lists of inputs stand behind the inputs. -/
def ofScopes (script : Script) (function : String) (all : List WrittenScope)
    (timeout : Option Nat) : ScriptRun :=
  { script := script
    function := function
    keys := (gathered .keys all).flatten
    inputs := (gathered .inputs all).flatten ++ (gathered .listInputs all).flatten
    listSizes := (gathered .listInputs all).map List.length
    outputs := (gathered .outputs all).flatten
    arguments := (gathered .arguments all).flatten
    timeout := timeout }

variable {keyspace : Keyspace} {key function : String} {script : Script}
  {all arrangement : List WrittenScope} {timeout : Option Nat}

theorem ofExecute_call (callable : Callable keyspace key script function) (command : Bytes)
    (rest : List Bytes) : ofExecute keyspace (call command key function rest) =
      ScriptScopes.empty.read rest >>= fun scopes => .ok (scopes.toRun script function) := by
  have named : text (Text.encode key) = .ok key := text_eq_ok_iff.mpr rfl
  have held : keyspace.getScript key = .ok script := Keyspace.getScript_eq_ok.mpr callable.held
  have called : functionName (Text.encode function) = .ok function :=
    functionName_eq_ok_iff.mpr ⟨rfl, callable.plain⟩
  simp only [call, ofExecute, named, held, called, bind, Except.bind, pure, Except.pure]

theorem last_of_single {lists : List (List String)} (single : lists.length ≤ 1) :
    lists.getLast?.getD [] = lists.flatten := by
  match lists with
  | [] => rfl
  | [names] => simp
  | _ :: _ :: _ => simp at single

theorem length_flatten_eq (lists : List (List String)) :
    lists.flatten.length = sizeSum (lists.map List.length) := by
  induction lists with
  | nil => rfl
  | cons names others ih =>
      rw [List.flatten_cons, List.length_append, List.map_cons, sizeSum, ih]

theorem toRun_foldl_enter (once : Once all) :
    { all.foldl ScriptScopes.enter ScriptScopes.empty with timeout := timeout }.toRun script
      function = ofScopes script function all timeout := by
  rw [ScriptScopes.foldl_enter]
  simp only [ScriptScopes.toRun, ofScopes, last_of_single (once .inputs nofun),
    last_of_single (once .keys nofun), last_of_single (once .outputs nofun),
    last_of_single (once .arguments nofun)]

theorem ofScopes_rearranged (rearranges : Rearranges arrangement all) (once : Once all) :
    ofScopes script function arrangement timeout = ofScopes script function all timeout := by
  simp only [ofScopes, rearranges.gathered_eq once]

theorem ofExecute_scopes (callable : Callable keyspace key script function) (command : Bytes)
    (once : Once all) {ending : List Bytes} (ends : Ending timeout ending) :
    ofExecute keyspace (call command key function (all.flatMap words ++ ending)) =
      .ok (ofScopes script function all timeout) := by
  have untimed : (all.foldl ScriptScopes.enter ScriptScopes.empty).timeout = none := by
    rw [ScriptScopes.foldl_enter]
  rw [ofExecute_call callable, ScriptScopes.read_written (ScriptScopes.admits_empty once),
    ScriptScopes.read_of_ending untimed ends, ← toRun_foldl_enter once]
  rfl

/-- A scope that has been there is refused before its count is looked at. -/
theorem ofExecute_repeated (callable : Callable keyspace key script function) (command : Bytes)
    (once : Once all) {scope : Scope} (single : scope ≠ .listInputs)
    (there : gathered scope all ≠ []) {keyword : Bytes}
    (named : Text.isKeyword keyword scope.keyword = true) (rest : List Bytes) :
    ofExecute keyspace (call command key function (all.flatMap words ++ keyword :: rest)) =
      .error (.malformed (.scopeRepeated scope.keyword)) := by
  rw [ofExecute_call callable, ScriptScopes.read_written (ScriptScopes.admits_empty once),
    ScriptScopes.read_repeated named (ScriptScopes.has_foldl_enter single there)]
  rfl

theorem ofExecute_after_timeout (callable : Callable keyspace key script function)
    (command : Bytes) (once : Once all) {keyword : Bytes}
    (named : Text.isKeyword keyword "TIMEOUT" = true) (value extra : Bytes) (rest : List Bytes) :
    ofExecute keyspace
        (call command key function (all.flatMap words ++ keyword :: value :: extra :: rest)) =
      Command.timeout value >>= fun _ => .error (ScriptScopes.unrecognized extra) := by
  rw [ofExecute_call callable, ScriptScopes.read_written (ScriptScopes.admits_empty once),
    ScriptScopes.read, if_pos named]
  cases read : Command.timeout value <;> simp [ScriptScopes.closing, read, bind, Except.bind]

/-- Scopes of a call, each at most once but for lists of inputs, are read alike in every order that
keeps that of the lists: there are as many inputs as the inputs and the lists have names. Behind any
such scopes one of them that comes again is refused, whatever stands behind its keyword, and behind
a timeout all else is. -/
theorem reads_scopes_in_any_order (callable : Callable keyspace key script function)
    (command : Bytes) (once : Once all) :
    (∀ arrangement timeout ending, Rearranges arrangement all → Ending timeout ending →
      ofExecute keyspace
          (call command key function (arrangement.flatMap words ++ ending)) =
        .ok (ofScopes script function all timeout)) ∧
    (∀ timeout, (ofScopes script function all timeout).inputs.length =
      (gathered .inputs all).flatten.length +
        sizeSum (ofScopes script function all timeout).listSizes) ∧
    (∀ scope, scope ≠ .listInputs → gathered scope all ≠ [] →
      ∀ keyword rest, Text.isKeyword keyword scope.keyword = true →
        ofExecute keyspace (call command key function (all.flatMap words ++ keyword :: rest)) =
          .error (.malformed (.scopeRepeated scope.keyword))) ∧
    ∀ keyword value extra rest, Text.isKeyword keyword "TIMEOUT" = true →
      ∃ cause, ofExecute keyspace
          (call command key function (all.flatMap words ++ keyword :: value :: extra :: rest)) =
        .error cause ∧
        ∀ milliseconds, Decimal.positive? value = some milliseconds →
          cause = ScriptScopes.unrecognized extra := by
  refine ⟨?_, ?_, ?_, ?_⟩
  · intro arrangement timeout ending rearranges ends
    rw [← ofScopes_rearranged rearranges once]
    exact ofExecute_scopes callable command (rearranges.once once) ends
  · intro timeout
    rw [ofScopes, List.length_append, length_flatten_eq (gathered .listInputs all)]
  · intro scope single there keyword rest named
    exact ofExecute_repeated callable command once single there named rest
  · intro keyword value extra rest named
    rw [ofExecute_after_timeout callable command once named]
    cases read : Command.timeout value with
    | error cause =>
        refine ⟨cause, rfl, fun milliseconds positive => ?_⟩
        rw [timeout_eq_ok_iff.mpr positive] at read
        cases read
    | ok milliseconds => exact ⟨_, rfl, fun _ _ => rfl⟩

end ScriptRun

end Command

namespace Sample

def summing : Script :=
  { id := 0
    key := "sums"
    device := .cpu
    tag := ""
    source := "sum"
    entryPoints := ["sum"]
    handle := ⟨["sum"], fun _ call => .ok call.inputs⟩ }

def scripted : Keyspace := Keyspace.empty.set "sums" (.script summing)

/-- Inputs, two lists of them and outputs, with names that look like keywords. -/
def scopes : List Command.WrittenScope :=
  [⟨.inputs, ["KEYS"], Text.encode "inputs", Text.encode "1", by decide +kernel, by decide +kernel⟩,
    ⟨.listInputs, ["a", "ARGS"], Text.encode "List_Inputs", Text.encode "+2", by decide +kernel,
      by decide +kernel⟩,
    ⟨.listInputs, ["TIMEOUT"], Text.encode "LIST_INPUTS", Text.encode "01", by decide +kernel,
      by decide +kernel⟩,
    ⟨.outputs, ["OUTPUTS"], Text.encode "OUTPUTS", Text.encode "1", by decide +kernel,
      by decide +kernel⟩]

end Sample

namespace Command

open WrittenScope

/-- The inputs of a call stand behind its lists and its outputs. -/
theorem ScriptRun.reads_inputs_at_the_end :
    Callable Sample.scripted "sums" Sample.summing "sum" ∧ Once Sample.scopes ∧
    Rearranges (Sample.scopes.rotate 1) Sample.scopes ∧
    (∃ run, ofExecute Sample.scripted (call (Text.encode "AI.SCRIPTEXECUTE") "sums" "sum"
        ((Sample.scopes.rotate 1).flatMap words ++ [Text.encode "timeout", Text.encode "10"])) =
          .ok run ∧
      run.inputs = ["KEYS", "a", "ARGS", "TIMEOUT"] ∧ run.listSizes = [2, 1] ∧
      run.timeout = some 10) ∧
    ofExecute Sample.scripted (call (Text.encode "AI.SCRIPTEXECUTE") "sums" "sum"
        (Sample.scopes.flatMap words ++ [Text.encode "Inputs"])) =
      .error (.malformed (.scopeRepeated "INPUTS")) := by
  have callable : Callable Sample.scripted "sums" Sample.summing "sum" :=
    ⟨rfl, by decide +kernel⟩
  have once : Once Sample.scopes := by
    intro scope single
    cases scope with
    | listInputs => exact absurd rfl single
    | _ => decide
  have rearranges : Rearranges (Sample.scopes.rotate 1) Sample.scopes :=
    ⟨List.rotate_perm Sample.scopes 1, rfl⟩
  have ends : Ending (some 10) [Text.encode "timeout", Text.encode "10"] :=
    .timeout (by decide +kernel) (by decide +kernel)
  obtain ⟨read, _, repeated, _⟩ := ScriptRun.reads_scopes_in_any_order callable
    (Text.encode "AI.SCRIPTEXECUTE") once
  refine ⟨callable, once, rearranges, ⟨_, read _ _ _ rearranges ends, rfl, rfl, rfl⟩, ?_⟩
  exact repeated .inputs nofun (by decide) _ [] (by decide +kernel)

end Command

end InferenceStore
