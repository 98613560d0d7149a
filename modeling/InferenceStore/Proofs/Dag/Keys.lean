import InferenceStore.Proofs.Dag.Language
import InferenceStore.Proofs.Dag.Start

/-
Keys that a command names, and keys whose slots are checked. The words name keys in clauses, as
names of local values of a run on its own, and as the model or script and the keys of operations.
All of them are checked as they stand, except that a model or script stands for the key that it was
loaded for: an operation knows its instance and not the key by which it was found.
-/

namespace InferenceStore

open Command Outcome

/-- The key for which the model or script at a key was loaded. -/
def Keyspace.loadedFor (keyspace : Keyspace) (key : String) : String :=
  match keyspace.get? key with
  | some (.model model) => model.key
  | some (.script script) => script.key
  | _ => key

namespace Op

def hostKeys : Op → List String
  | .script run => run.keys
  | _ => []

/-- The key behind the name of a command, if the operation has a model or script there. -/
def instanceKeys (op : Op) (words : List Bytes) : List String :=
  match op with
  | .model _ | .script _ => (words[1]?.bind Text.decode?).toList
  | _ => []

end Op

namespace Dag

def Clause.keys : Clause → List String
  | .load keys | .persist keys => keys
  | .routing key => [key]
  | .timeout _ => []

/-- The keys that the words of a command name: those of models and scripts, and all others. -/
inductive Names (keyspace : Keyspace) :
    List Bytes → Option DagFlavor → Dag → List String → List String → Prop
  | alone {arguments : List Bytes} {op : Op}
      (commanded : Commanded keyspace arguments none (.single op)) :
      Names keyspace arguments none (.single op) (op.instanceKeys arguments)
        (op.inputs ++ op.outputs ++ op.hostKeys)
  | graph {flavor : DagFlavor} {sentence : Sentence}
      (named : Command.name sentence.arguments = flavor.name)
      (valid : sentence.Valid flavor keyspace) :
      Names keyspace sentence.arguments (some flavor) (sentence.graph flavor)
        (sentence.operations.flatMap fun operation =>
          operation.meaning.instanceKeys operation.words)
        (sentence.clauses.flatMap (fun clause => clause.meaning.keys) ++
          sentence.operations.flatMap fun operation => operation.meaning.hostKeys)

end Dag

/-! ### Models and scripts -/

namespace Command

def Finds (keyspace : Keyspace) (words : List Bytes) (value : Value) : Prop :=
  ∃ key, words[1]?.bind Text.decode? = some key ∧ keyspace.get? key = some value

variable {keyspace : Keyspace} {words : List Bytes}

theorem decode?_of_text {argument : Bytes} {name : String} (read : text argument = .ok name) :
    Text.decode? argument = some name := by
  rw [text_eq_ok_iff.mp read, Text.decode?_encode]

theorem ModelRun.finds_of_execute {run : ModelRun}
    (read : ModelRun.ofExecute keyspace words = .ok run) :
    Finds keyspace words (.model run.model) := by
  unfold ModelRun.ofExecute at read
  split at read
  · split at read
    · cases read
    · obtain ⟨key, named, read⟩ := bind_eq_ok.mp read
      obtain ⟨model, held, read⟩ := bind_eq_ok.mp read
      obtain ⟨inputs, _, read⟩ := bind_eq_ok.mp read
      obtain ⟨outputs, _, read⟩ := bind_eq_ok.mp read
      obtain ⟨timeout, _, read⟩ := bind_eq_ok.mp read
      cases read
      exact ⟨key, decode?_of_text named, Keyspace.getModel_eq_ok.mp held⟩
  · cases read

theorem ModelRun.finds_of_run {run : ModelRun} (read : ModelRun.ofRun keyspace words = .ok run) :
    Finds keyspace words (.model run.model) := by
  unfold ModelRun.ofRun at read
  split at read
  · split at read
    · cases read
    · obtain ⟨key, named, read⟩ := bind_eq_ok.mp read
      obtain ⟨model, held, read⟩ := bind_eq_ok.mp read
      obtain ⟨⟨timeout, scopes⟩, _, read⟩ := bind_eq_ok.mp read
      dsimp only at read
      split at read
      · cases read
      · split at read
        · cases read
        · obtain ⟨inputs, _, read⟩ := bind_eq_ok.mp read
          obtain ⟨outputs, _, read⟩ := bind_eq_ok.mp read
          split at read
          · cases read
          · split at read
            · cases read
            · cases read
              exact ⟨key, decode?_of_text named, Keyspace.getModel_eq_ok.mp held⟩
  · cases read

theorem ScriptRun.finds_of_execute {run : ScriptRun}
    (read : ScriptRun.ofExecute keyspace words = .ok run) :
    Finds keyspace words (.script run.script) := by
  unfold ScriptRun.ofExecute at read
  split at read
  · obtain ⟨key, named, read⟩ := bind_eq_ok.mp read
    obtain ⟨script, held, read⟩ := bind_eq_ok.mp read
    obtain ⟨function, _, read⟩ := bind_eq_ok.mp read
    obtain ⟨scopes, _, read⟩ := bind_eq_ok.mp read
    cases read
    exact ⟨key, decode?_of_text named, Keyspace.getScript_eq_ok.mp held⟩
  · cases read

theorem ScriptRun.finds_of_run {run : ScriptRun} (read : ScriptRun.ofRun keyspace words = .ok run) :
    Finds keyspace words (.script run.script) := by
  unfold ScriptRun.ofRun at read
  split at read
  · split at read
    · cases read
    · obtain ⟨key, named, read⟩ := bind_eq_ok.mp read
      obtain ⟨script, held, read⟩ := bind_eq_ok.mp read
      obtain ⟨function, _, read⟩ := bind_eq_ok.mp read
      obtain ⟨sections, _, read⟩ := bind_eq_ok.mp read
      cases read
      exact ⟨key, decode?_of_text named, Keyspace.getScript_eq_ok.mp held⟩
  · cases read

end Command

namespace Op

/-- The keys of an operation are those that its words name, but for the one of its instance. -/
def NamedBy (op : Op) (keyspace : Keyspace) (words : List Bytes) : Prop :=
  op.keys = (op.instanceKeys words).map keyspace.loadedFor ++ op.hostKeys

variable {keyspace : Keyspace} {words : List Bytes}

theorem named_of_model {run : ModelRun} (found : Finds keyspace words (.model run.model)) :
    (Op.model run).NamedBy keyspace words := by
  obtain ⟨key, named, held⟩ := found
  simp only [NamedBy, keys, instanceKeys, hostKeys, named, Option.toList_some, List.map_singleton,
    Keyspace.loadedFor, held, List.append_nil]

theorem named_of_script {run : ScriptRun} (found : Finds keyspace words (.script run.script)) :
    (Op.script run).NamedBy keyspace words := by
  obtain ⟨key, named, held⟩ := found
  simp only [NamedBy, keys, instanceKeys, hostKeys, named, Option.toList_some, List.map_singleton,
    Keyspace.loadedFor, held, List.singleton_append]

end Op

namespace Dag

variable {keyspace : Keyspace} {words : List Bytes} {op : Op} {dag : Dag} {flavor : DagFlavor}

theorem Accepts.named (accepted : Accepts flavor keyspace op words) : op.NamedBy keyspace words := by
  cases accepted with
  | tensorSet _ _ => rfl
  | tensorGet _ _ => rfl
  | modelExecute _ _ read _ => exact Op.named_of_model (ModelRun.finds_of_execute read)
  | modelRun _ _ read _ => exact Op.named_of_model (ModelRun.finds_of_run read)
  | scriptExecute _ _ read _ => exact Op.named_of_script (ScriptRun.finds_of_execute read)
  | scriptRun _ _ read _ => exact Op.named_of_script (ScriptRun.finds_of_run read)

theorem Commanded.exists_named (commanded : Commanded keyspace words none dag) :
    ∃ op, dag = .single op ∧ op.NamedBy keyspace words := by
  cases commanded with
  | modelExecute _ read => exact ⟨_, rfl, Op.named_of_model (ModelRun.finds_of_execute read)⟩
  | modelRun _ read => exact ⟨_, rfl, Op.named_of_model (ModelRun.finds_of_run read)⟩
  | scriptExecute _ read => exact ⟨_, rfl, Op.named_of_script (ScriptRun.finds_of_execute read)⟩
  | scriptRun _ read => exact ⟨_, rfl, Op.named_of_script (ScriptRun.finds_of_run read)⟩

/-! ### Clauses -/

def clauseKeys (dag : Dag) : List String := dag.routing.toList ++ dag.load ++ dag.persist

def Vacant (dag : Dag) : DagClause → Prop
  | .load => dag.load = []
  | .persist => dag.persist = []
  | .routing => dag.routing = none
  | .timeout => True

variable {clause : Clause} {clauses : List Clause} {key : String}

theorem mem_enter (vacant : dag.Vacant clause.kind) :
    key ∈ (clause.enter dag).clauseKeys ↔ key ∈ dag.clauseKeys ∨ key ∈ clause.keys := by
  cases clause with
  | load keys =>
      simp only [Vacant, Clause.kind] at vacant
      simp only [clauseKeys, Clause.enter, Clause.keys, vacant, List.mem_append, List.not_mem_nil]
      tauto
  | persist keys =>
      simp only [Vacant, Clause.kind] at vacant
      simp only [clauseKeys, Clause.enter, Clause.keys, vacant, List.mem_append, List.not_mem_nil]
      tauto
  | routing name =>
      simp only [Vacant, Clause.kind] at vacant
      simp only [clauseKeys, Clause.enter, Clause.keys, vacant, List.mem_append, Option.toList_none,
        Option.toList_some, List.not_mem_nil]
      tauto
  | timeout milliseconds =>
      simp only [clauseKeys, Clause.enter, Clause.keys, List.mem_append, List.not_mem_nil, or_false]

theorem Vacant.enter {kind : DagClause} (vacant : dag.Vacant kind) (apart : clause.kind ≠ kind) :
    (clause.enter dag).Vacant kind := by
  cases clause <;> cases kind <;> first | exact vacant | exact absurd rfl apart

theorem mem_foldl_enter (once : (clauses.map Clause.kind).Nodup)
    (vacant : ∀ clause ∈ clauses, dag.Vacant clause.kind) :
    key ∈ (clauses.foldl Clause.enter dag).clauseKeys ↔
      key ∈ dag.clauseKeys ∨ ∃ clause ∈ clauses, key ∈ clause.keys := by
  induction clauses generalizing dag with
  | nil => simp
  | cons clause rest ih =>
      obtain ⟨absent, onceBehind⟩ := List.nodup_cons.mp once
      obtain ⟨first, behind⟩ := List.forall_mem_cons.mp vacant
      have vacantBehind : ∀ other ∈ rest, (clause.enter dag).Vacant other.kind := by
        intro other member
        refine (behind other member).enter fun same => absent ?_
        exact List.mem_map.mpr ⟨other, member, same.symm⟩
      rw [List.foldl_cons, ih onceBehind vacantBehind, mem_enter first, List.exists_mem_cons_iff,
        or_assoc]

/-! ### Names of a command -/

theorem mem_keys_single :
    key ∈ (single op).keys ↔ key ∈ op.inputs ∨ key ∈ op.outputs ∨ key ∈ op.keys := by
  simp only [keys, single, Option.toList_none, List.nil_append, List.mem_append,
    mem_firstOccurrences, List.flatMap_cons, List.flatMap_nil, List.append_nil, or_assoc]

theorem mem_keys_graph {sentence : Sentence} (valid : sentence.Valid flavor keyspace) :
    key ∈ (sentence.graph flavor).keys ↔
      (∃ clause ∈ sentence.clauses, key ∈ clause.meaning.keys) ∨
        ∃ operation ∈ sentence.operations, key ∈ operation.meaning.keys := by
  have vacant : ∀ clause ∈ sentence.clauses.map Phrase.meaning,
      (blank flavor).Vacant clause.kind := by
    intro clause _
    cases clause <;> trivial
  have once : ((sentence.clauses.map Phrase.meaning).map Clause.kind).Nodup := by
    rw [List.map_map]
    exact valid.once
  have header : key ∈ (sentence.header flavor).clauseKeys ↔ _ := mem_foldl_enter once vacant
  have whole : key ∈ (sentence.graph flavor).keys ↔
      key ∈ (sentence.header flavor).clauseKeys ∨
        ∃ operation ∈ sentence.operations, key ∈ operation.meaning.keys := by
    simp only [keys, Sentence.graph, clauseKeys, List.mem_append, List.mem_flatMap, List.mem_map,
      exists_exists_and_eq_and]
  have nothing : key ∉ (blank flavor).clauseKeys := List.not_mem_nil
  rw [whole, header, or_iff_right nothing]
  simp only [List.mem_map, exists_exists_and_eq_and]

/-- The keys whose slots are checked are the named ones, each model and script under the key that
it was loaded for. -/
theorem Names.mem_keys {arguments : List Bytes} {origin : Option DagFlavor}
    {instances others : List String} (names : Names keyspace arguments origin dag instances others) :
    key ∈ dag.keys ↔ key ∈ instances.map keyspace.loadedFor ++ others := by
  cases names with
  | @alone arguments op commanded =>
      obtain ⟨other, same, named⟩ := commanded.exists_named
      cases List.singleton_inj.mp (congrArg Dag.ops same)
      rw [mem_keys_single, named]
      simp only [List.mem_append]
      tauto
  | @graph flavor sentence _ valid =>
      have named (operation : Phrase Op) (member : operation ∈ sentence.operations) :=
        (valid.accepted operation member).named
      rw [mem_keys_graph valid]
      simp only [List.map_flatMap, List.mem_append, List.mem_flatMap]
      constructor
      · rintro (clause | ⟨operation, member, checked⟩)
        · exact Or.inr (Or.inl clause)
        · rw [named operation member] at checked
          rcases List.mem_append.mp checked with instanced | hosted
          · exact Or.inl ⟨operation, member, instanced⟩
          · exact Or.inr (Or.inr ⟨operation, member, hosted⟩)
      · rintro (⟨operation, member, instanced⟩ | clause | ⟨operation, member, hosted⟩)
        · refine Or.inr ⟨operation, member, ?_⟩
          rw [named operation member]
          exact List.mem_append_left _ instanced
        · exact Or.inl clause
        · refine Or.inr ⟨operation, member, ?_⟩
          rw [named operation member]
          exact List.mem_append_right _ hosted

theorem Commanded.exists_names {arguments : List Bytes} {origin : Option DagFlavor}
    (commanded : Commanded keyspace arguments origin dag) :
    ∃ instances others, Names keyspace arguments origin dag instances others := by
  cases origin with
  | none =>
      obtain ⟨op, rfl, _⟩ := commanded.exists_named
      exact ⟨_, _, .alone commanded⟩
  | some flavor =>
      cases commanded with
      | flavored named read =>
          obtain ⟨sentence, valid, rfl, rfl⟩ := exists_valid_of_ofArguments read
          exact ⟨_, _, .graph named valid⟩

end Dag

end InferenceStore
