import InferenceStore.Proofs.Command.Executions
import InferenceStore.Proofs.Dag.Course
import InferenceStore.Proofs.Dag.Language
import InferenceStore.Proofs.Dag.Start

/-
The graph form of a command that executes a model or a script on its own. It loads the inputs,
persists the outputs, has the timeout in front, and the rest of the command as its one operation.
It is a valid sentence, and the graph that it says differs from that of the command itself in how
it replies, and in that it may load a key more than once.
-/

namespace InferenceStore

open Command

namespace Op

def untimed : Op → Op
  | .model run => .model { run with timeout := none }
  | .script run => .script { run with timeout := none }
  | op => op

@[simp] theorem inputs_untimed (op : Op) : op.untimed.inputs = op.inputs := by
  cases op <;> rfl

@[simp] theorem outputs_untimed (op : Op) : op.untimed.outputs = op.outputs := by
  cases op <;> rfl

@[simp] theorem keys_untimed (op : Op) : op.untimed.keys = op.keys := by
  cases op <;> rfl

@[simp] theorem target?_untimed (op : Op) : op.untimed.target? = op.target? := by
  cases op <;> rfl

def endingLength (op : Op) : Nat := if op.timeout.isSome then 2 else 0

def body (op : Op) (arguments : List Bytes) : List Bytes :=
  arguments.take (arguments.length - op.endingLength)

def ending (op : Op) (arguments : List Bytes) : List Bytes :=
  arguments.drop (arguments.length - op.endingLength)

end Op

namespace Dag

variable {keyspace : Keyspace} {arguments : List Bytes} {op : Op}

/-- A model or a script that a command executes on its own. -/
inductive Executed (keyspace : Keyspace) (arguments : List Bytes) : Op → Prop
  | model {run : ModelRun} (named : Command.name arguments = "AI.MODELEXECUTE")
      (read : ModelRun.ofExecute keyspace arguments = .ok run) :
      Executed keyspace arguments (.model run)
  | script {run : ScriptRun} (named : Command.name arguments = "AI.SCRIPTEXECUTE")
      (read : ScriptRun.ofExecute keyspace arguments = .ok run) :
      Executed keyspace arguments (.script run)

namespace Executed

theorem commanded (executed : Executed keyspace arguments op) :
    Commanded keyspace arguments none (.single op) := by
  cases executed with
  | model named read => exact .modelExecute named read
  | script named read => exact .scriptExecute named read

theorem runs (executed : Executed keyspace arguments op) : ∃ target, op.target? = some target := by
  cases executed with
  | model _ _ => exact ⟨_, rfl⟩
  | script _ _ => exact ⟨_, rfl⟩

end Executed

theorem cut_ending (op : Op) (body : List Bytes) {ending : List Bytes}
    (ends : Ending op.timeout ending) :
    op.body (body ++ ending) = body ∧ op.ending (body ++ ending) = ending := by
  have length : op.endingLength = ending.length := (length_of_ending ends).symm
  have front : (body ++ ending).length - op.endingLength = body.length := by
    rw [length, List.length_append, Nat.add_sub_cancel]
  rw [Op.body, Op.ending, front]
  exact ⟨List.take_left, List.drop_left⟩

theorem Executed.accepts_body (executed : Executed keyspace arguments op) :
    Ending op.timeout (op.ending arguments) ∧
      Accepts .execute keyspace op.untimed (op.body arguments) := by
  cases executed with
  | @model run named read =>
      obtain ⟨body, ending, rfl, ends, reads⟩ := ModelRun.exists_body read
      have untimed := reads .none
      rw [List.append_nil] at untimed
      obtain ⟨front, back⟩ := cut_ending (.model run) body ends
      rw [front, back]
      refine ⟨ends, .modelExecute ?_ (Or.inl rfl) untimed rfl⟩
      cases body with
      | nil => cases untimed
      | cons first others => exact named
  | @script run named read =>
      obtain ⟨body, ending, rfl, ends, reads⟩ := ScriptRun.exists_body read
      have untimed := reads .none
      rw [List.append_nil] at untimed
      obtain ⟨front, back⟩ := cut_ending (.script run) body ends
      rw [front, back]
      refine ⟨ends, .scriptExecute ?_ rfl untimed rfl⟩
      cases body with
      | nil => cases untimed
      | cons first others => exact named

/-! ### Words -/

def keyWords (keyword : String) (count : Bytes) (keys : List String) : List Bytes :=
  if keys = [] then [] else Text.encode keyword :: count :: keys.map Text.encode

/-- The command that runs the operation as a graph, with these texts for the counts. -/
def graphWords (op : Op) (loadCount persistCount : Bytes) (arguments : List Bytes) : List Bytes :=
  Text.encode "AI.DAGEXECUTE" ::
    (keyWords "LOAD" loadCount op.inputs ++ keyWords "PERSIST" persistCount op.outputs ++
      op.ending arguments ++ chain :: op.body arguments)

def graphOf (op : Op) : Dag :=
  { ops := [op.untimed]
    load := op.inputs
    persist := op.outputs
    routing := none
    timeout := op.timeout
    readOnly := false
    singleOp := false }

/-- A command that has a graph form, with texts for the counts in it. -/
structure Rephrased (keyspace : Keyspace) (arguments : List Bytes) (op : Op)
    (loadCount persistCount : Bytes) : Prop where
  executed : Executed keyspace arguments op
  distinct : op.outputs.Nodup
  named : op.inputs ≠ [] ∨ op.outputs ≠ []
  inputsApart : "|>" ∉ op.inputs
  outputsApart : "|>" ∉ op.outputs
  wordsApart : chain ∉ arguments
  loads : op.inputs ≠ [] → Decimal.positive? loadCount = some op.inputs.length
  persists : op.outputs ≠ [] → Decimal.positive? persistCount = some op.outputs.length

namespace Clause

variable {flavor : DagFlavor} {clauses others : List (Phrase Clause)}

theorem Listed.append (listed : Listed flavor clauses) (listedToo : Listed flavor others)
    (apart : ∀ clause ∈ clauses, ∀ other ∈ others, clause.meaning.kind ≠ other.meaning.kind) :
    Listed flavor (clauses ++ others) where
  spelled := List.forall_mem_append.mpr ⟨listed.spelled, listedToo.spelled⟩
  allowed := List.forall_mem_append.mpr ⟨listed.allowed, listedToo.allowed⟩
  once := by
    rw [List.map_append]
    refine listed.once.append listedToo.once ?_
    intro kind first second
    obtain ⟨clause, inClauses, rfl⟩ := List.mem_map.mp first
    obtain ⟨other, inOthers, same⟩ := List.mem_map.mp second
    exact apart clause inClauses other inOthers same.symm

theorem listed_singleton {clause : Phrase Clause} (spelled : clause.meaning.Spelled clause.words)
    (allowed : clause.meaning.Allowed flavor) : Listed flavor [clause] :=
  listed_cons.mpr ⟨spelled, allowed, nofun, .nil flavor⟩

end Clause

/-! ### Clauses -/

def keyPhrases (meaning : List String → Clause) (keyword : String) (count : Bytes)
    (keys : List String) : List (Phrase Clause) :=
  if keys = [] then [] else [⟨meaning keys, keyWords keyword count keys⟩]

def timeoutPhrases (timeout : Option Nat) (ending : List Bytes) : List (Phrase Clause) :=
  timeout.toList.map fun milliseconds => ⟨.timeout milliseconds, ending⟩

def graphSentence (op : Op) (loadCount persistCount : Bytes) (arguments : List Bytes) : Sentence :=
  { command := Text.encode "AI.DAGEXECUTE"
    clauses := keyPhrases .load "LOAD" loadCount op.inputs ++
      keyPhrases .persist "PERSIST" persistCount op.outputs ++
      timeoutPhrases op.timeout (op.ending arguments)
    operations := [⟨op.untimed, op.body arguments⟩] }

theorem words_of_keyPhrases (meaning : List String → Clause) (keyword : String) (count : Bytes)
    (keys : List String) : (keyPhrases meaning keyword count keys).flatMap Phrase.words =
      keyWords keyword count keys := by
  unfold keyPhrases
  split
  · rename_i empty
    rw [keyWords, if_pos empty]
    rfl
  · exact List.append_nil _

theorem words_of_timeoutPhrases {timeout : Option Nat} {ending : List Bytes}
    (ends : Ending timeout ending) : (timeoutPhrases timeout ending).flatMap Phrase.words =
      ending := by
  cases ends <;> rfl

theorem meaning_of_keyPhrases {meaning : List String → Clause} {keyword : String} {count : Bytes}
    {keys : List String} {clause : Phrase Clause}
    (member : clause ∈ keyPhrases meaning keyword count keys) : clause.meaning = meaning keys := by
  unfold keyPhrases at member
  split at member
  · cases member
  · rw [List.mem_singleton.mp member]

theorem listed_keyPhrases {flavor : DagFlavor} {meaning : List String → Clause} {keyword : String}
    {count : Bytes} {keys : List String}
    (spelled : keys ≠ [] → (meaning keys).Spelled (keyWords keyword count keys))
    (allowed : (meaning keys).Allowed flavor) :
    Clause.Listed flavor (keyPhrases meaning keyword count keys) := by
  unfold keyPhrases
  split
  · exact .nil flavor
  · rename_i several
    exact Clause.listed_singleton (spelled several) allowed

theorem kind_of_timeoutPhrases {timeout : Option Nat} {ending : List Bytes}
    {clause : Phrase Clause} (member : clause ∈ timeoutPhrases timeout ending) :
    clause.meaning.kind = .timeout := by
  obtain ⟨_, _, rfl⟩ := List.mem_map.mp member
  rfl

theorem graph_of_sentence (op : Op) (loadCount persistCount : Bytes) (arguments : List Bytes) :
    (graphSentence op loadCount persistCount arguments).graph .execute = graphOf op := by
  unfold Sentence.graph Sentence.header graphSentence keyPhrases timeoutPhrases graphOf
  cases op.timeout with
  | none =>
      by_cases loads : op.inputs = [] <;> by_cases persists : op.outputs = [] <;>
        simp [loads, persists, Clause.enter, blank, DagFlavor.isReadOnly]
  | some milliseconds =>
      by_cases loads : op.inputs = [] <;> by_cases persists : op.outputs = [] <;>
        simp [loads, persists, Clause.enter, blank, DagFlavor.isReadOnly]

namespace Rephrased

variable {loadCount persistCount : Bytes}

theorem arguments_eq (rephrased : Rephrased keyspace arguments op loadCount persistCount) :
    (graphSentence op loadCount persistCount arguments).arguments =
      graphWords op loadCount persistCount arguments := by
  have ends := rephrased.executed.accepts_body.1
  simp [Sentence.arguments, graphSentence, graphWords, List.flatMap_append, words_of_keyPhrases,
    words_of_timeoutPhrases ends]

theorem listed (rephrased : Rephrased keyspace arguments op loadCount persistCount) :
    Clause.Listed .execute (graphSentence op loadCount persistCount arguments).clauses := by
  have loads : Clause.Listed .execute (keyPhrases .load "LOAD" loadCount op.inputs) := by
    refine listed_keyPhrases (fun several => ?_) ⟨nofun, nofun⟩
    refine ⟨_, _, if_neg several, Text.isKeyword_encode _, ?_⟩
    exact .load (rephrased.loads several) rephrased.inputsApart
  have persists : Clause.Listed .execute
      (keyPhrases .persist "PERSIST" persistCount op.outputs) := by
    refine listed_keyPhrases (fun several => ?_) ⟨fun _ => rfl, nofun⟩
    refine ⟨_, _, if_neg several, Text.isKeyword_encode _, ?_⟩
    exact .persist (rephrased.persists several) rephrased.outputsApart rephrased.distinct
  have timed : Clause.Listed .execute (timeoutPhrases op.timeout (op.ending arguments)) := by
    have ends := rephrased.executed.accepts_body.1
    generalize op.timeout = timeout at ends
    generalize op.ending arguments = ending at ends
    cases ends with
    | none => exact .nil .execute
    | timeout named positive =>
        exact Clause.listed_singleton ⟨_, _, rfl, named, .timeout positive⟩ ⟨nofun, nofun⟩
  refine (loads.append persists ?_).append timed ?_
  · intro clause inLoads other inPersists
    rw [meaning_of_keyPhrases inLoads, meaning_of_keyPhrases inPersists]
    nofun
  · intro clause inKeys other inTimed
    rw [kind_of_timeoutPhrases inTimed]
    rcases List.mem_append.mp inKeys with inLoads | inPersists
    · rw [meaning_of_keyPhrases inLoads]
      nofun
    · rw [meaning_of_keyPhrases inPersists]
      nofun

theorem valid (rephrased : Rephrased keyspace arguments op loadCount persistCount) :
    (graphSentence op loadCount persistCount arguments).Valid .execute keyspace := by
  have accepted := rephrased.executed.accepts_body.2
  have graph := graph_of_sentence op loadCount persistCount arguments
  refine ⟨rephrased.listed, ?_, nofun, ?_, ?_, ?_, ?_, ?_⟩
  · intro _
    rcases rephrased.named with loads | persists
    · refine ⟨⟨.load op.inputs, keyWords "LOAD" loadCount op.inputs⟩, ?_, nofun⟩
      simp [graphSentence, keyPhrases, loads]
    · refine ⟨⟨.persist op.outputs, keyWords "PERSIST" persistCount op.outputs⟩, ?_, nofun⟩
      simp [graphSentence, keyPhrases, persists]
  · intro operation member
    rw [List.mem_singleton.mp member]
    have long := accepted.two_le_length
    exact List.ne_nil_of_length_pos (Nat.lt_of_lt_of_le Nat.zero_lt_two long)
  · intro operation member
    rw [List.mem_singleton.mp member]
    exact fun inBody => rephrased.wordsApart (List.mem_of_mem_take inBody)
  · intro operation member
    rw [List.mem_singleton.mp member]
    exact accepted
  · rw [graph]
    intro index reader located name reads
    cases index with
    | zero =>
        cases located
        rw [Op.inputs_untimed] at reads
        exact Or.inl reads
    | succ index => cases located
  · rw [graph]
    intro name member
    exact Or.inr ⟨op.untimed, List.mem_singleton.mpr rfl, op.outputs_untimed.symm ▸ member⟩

theorem commanded (rephrased : Rephrased keyspace arguments op loadCount persistCount) :
    Commanded keyspace (graphWords op loadCount persistCount arguments) (some .execute)
      (graphOf op) := by
  have read := ofArguments_of_valid rephrased.valid
  rw [rephrased.arguments_eq, graph_of_sentence] at read
  have named : Command.name [Text.encode "AI.DAGEXECUTE"] = "AI.DAGEXECUTE" := by decide +kernel
  exact .flavored named read

end Rephrased

end Dag

/-! ### Refusals -/

theorem findSome?_filter_ne {α : Type} {f : String → Option α} {name : String}
    (missing : f name = none) (names : List String) :
    (names.filter (· != name)).findSome? f = names.findSome? f := by
  induction names with
  | nil => rfl
  | cons first rest ih =>
      by_cases same : first = name
      · rw [List.filter_cons_of_neg (by simp [same]), ih, List.findSome?_cons, same, missing]
      · rw [List.filter_cons_of_pos (by simp [same]), List.findSome?_cons, List.findSome?_cons,
          ih]

theorem findSome?_firstOccurrences {α : Type} (f : String → Option α) (names : List String) :
    (firstOccurrences names).findSome? f = names.findSome? f := by
  induction names with
  | nil => rfl
  | cons name rest ih =>
      rw [firstOccurrences, List.findSome?_cons, List.findSome?_cons]
      cases found : f name with
      | some value => rfl
      | none => exact (findSome?_filter_ne found _).trans ih

/-- A command and its graph form are refused for the same reasons. -/
theorem Engine.refusal?_graphOf (engine : Engine) (op : Op) :
    engine.refusal? (Dag.graphOf op) = engine.refusal? (Dag.single op) := by
  have slots : Slot.crosses (Dag.graphOf op).keys = Slot.crosses (Dag.single op).keys := by
    apply Slot.crosses_congr
    intro key
    simp [Dag.keys, Dag.graphOf, Dag.single, mem_firstOccurrences]
  have loads (cause? : String → Option Error) :
      (Dag.single op).load.findSome? cause? = (Dag.graphOf op).load.findSome? cause? :=
    findSome?_firstOccurrences cause? op.inputs
  rw [refusal?, refusal?, slots, loads]

end InferenceStore
