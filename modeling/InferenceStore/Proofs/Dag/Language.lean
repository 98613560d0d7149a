import InferenceStore.Proofs.Dag.Clauses

/-
The language of the commands that run graphs. A sentence is clauses with their words, then
operations with theirs, each behind a separator; what makes it valid is said of it as a whole,
without a reader. A command is read as a graph exactly if it is the words of a valid sentence that
says this graph.
-/

namespace InferenceStore

open Command Outcome

namespace Dag

/-! ### Operations -/

/-- An operation that the flavor has, read from its words by the reader of its own command. -/
inductive Accepts (flavor : DagFlavor) (keyspace : Keyspace) : Op → List Bytes → Prop
  | tensorSet {words : List Bytes} {set : TensorSet}
      (named : Command.name words = "AI.TENSORSET") (read : TensorSet.ofArguments words = .ok set) :
      Accepts flavor keyspace (.tensorSet set) words
  | tensorGet {words : List Bytes} {get : TensorGet}
      (named : Command.name words = "AI.TENSORGET") (read : TensorGet.ofArguments words = .ok get) :
      Accepts flavor keyspace (.tensorGet get) words
  | modelExecute {words : List Bytes} {run : ModelRun}
      (named : Command.name words = "AI.MODELEXECUTE")
      (allowed : flavor = .execute ∨ flavor = .executeReadOnly)
      (read : ModelRun.ofExecute keyspace words = .ok run) (untimed : run.timeout = none) :
      Accepts flavor keyspace (.model run) words
  | modelRun {words : List Bytes} {run : ModelRun} (named : Command.name words = "AI.MODELRUN")
      (allowed : flavor = .run ∨ flavor = .runReadOnly)
      (read : ModelRun.ofRun keyspace words = .ok run) (untimed : run.timeout = none) :
      Accepts flavor keyspace (.model run) words
  | scriptExecute {words : List Bytes} {run : ScriptRun}
      (named : Command.name words = "AI.SCRIPTEXECUTE") (allowed : flavor = .execute)
      (read : ScriptRun.ofExecute keyspace words = .ok run) (untimed : run.timeout = none) :
      Accepts flavor keyspace (.script run) words
  | scriptRun {words : List Bytes} {run : ScriptRun} (named : Command.name words = "AI.SCRIPTRUN")
      (allowed : flavor = .run) (read : ScriptRun.ofRun keyspace words = .ok run)
      (untimed : run.timeout = none) :
      Accepts flavor keyspace (.script run) words

/-! ### Sentences -/

structure Sentence where
  command : Bytes
  clauses : List (Phrase Clause)
  operations : List (Phrase Op)

namespace Sentence

def arguments (sentence : Sentence) : List Bytes :=
  sentence.command :: sentence.clauses.flatMap Phrase.words ++
    sentence.operations.flatMap fun operation => chain :: operation.words

def header (flavor : DagFlavor) (sentence : Sentence) : Dag :=
  (sentence.clauses.map Phrase.meaning).foldl Clause.enter (blank flavor)

def graph (flavor : DagFlavor) (sentence : Sentence) : Dag :=
  { sentence.header flavor with ops := sentence.operations.map Phrase.meaning }

structure Valid (flavor : DagFlavor) (keyspace : Keyspace) (sentence : Sentence) : Prop
    extends Clause.Listed flavor sentence.clauses where
  keyed : flavor.isDeprecated = false →
    ∃ clause ∈ sentence.clauses, clause.meaning.kind ≠ .timeout
  several : sentence.operations ≠ []
  filled : ∀ operation ∈ sentence.operations, operation.words ≠ []
  apart : ∀ operation ∈ sentence.operations, chain ∉ operation.words
  accepted : ∀ operation ∈ sentence.operations,
    Accepts flavor keyspace operation.meaning operation.words
  ordered : Ordered (sentence.graph flavor).load (sentence.graph flavor).ops
  persisted : ∀ name ∈ (sentence.graph flavor).persist,
    name ∈ (sentence.graph flavor).load ∨
      ∃ op ∈ (sentence.graph flavor).ops, name ∈ op.outputs

end Sentence

variable {flavor : DagFlavor} {keyspace : Keyspace} {arguments : List Bytes} {dag : Dag}

/-! ### Separators -/

theorem segments_append {part : List Bytes} (apart : chain ∉ part) (parts : List (List Bytes)) :
    segments (part ++ parts.flatMap (chain :: ·)) =
      part :: match parts with
        | [] => []
        | next :: others => segments (next ++ others.flatMap (chain :: ·)) := by
  induction part with
  | nil =>
      cases parts with
      | nil => rfl
      | cons next others =>
          have separates : isChain chain = true := isChain_iff.mpr rfl
          simp only [List.nil_append, List.flatMap_cons, List.cons_append, segments, separates,
            if_true]
  | cons word behind ih =>
      obtain ⟨differs, apart⟩ := not_or.mp fun either => apart (List.mem_cons.mpr either)
      have continues : isChain word = false := not_isChain_iff.mpr fun same => differs same.symm
      rw [List.cons_append, segments, continues, if_neg Bool.false_ne_true, ih apart]

theorem segments_join {part : List Bytes} {parts : List (List Bytes)} (apart : chain ∉ part)
    (others : ∀ other ∈ parts, chain ∉ other) :
    segments (part ++ parts.flatMap (chain :: ·)) = part :: parts := by
  induction parts generalizing part with
  | nil => exact segments_append apart []
  | cons next behind ih =>
      obtain ⟨first, others⟩ := List.forall_mem_cons.mp others
      rw [segments_append apart (next :: behind)]
      exact congrArg (part :: ·) (ih first others)

theorem join_segments (words : List Bytes) : ∃ part parts, segments words = part :: parts ∧
    words = part ++ parts.flatMap (chain :: ·) ∧ chain ∉ part ∧ ∀ other ∈ parts, chain ∉ other := by
  induction words with
  | nil => exact ⟨[], [], rfl, rfl, List.not_mem_nil, nofun⟩
  | cons word behind ih =>
      obtain ⟨part, parts, cut, joined, apart, others⟩ := ih
      cases separates : isChain word with
      | true =>
          refine ⟨[], part :: parts, ?_, ?_, List.not_mem_nil,
            List.forall_mem_cons.mpr ⟨apart, others⟩⟩
          · rw [segments, separates, if_pos rfl, cut]
          · rw [isChain_iff.mp separates, joined]
            rfl
      | false =>
          refine ⟨word :: part, parts, ?_, ?_, ?_, others⟩
          · rw [segments, separates, if_neg Bool.false_ne_true, cut]
          · rw [joined]
            rfl
          · rintro (_ | ⟨_, inPart⟩)
            · rw [isChain_iff.mpr rfl] at separates
              cases separates
            · exact apart inPart

/-! ### Reading operations -/

theorem accepts_of_readCommand {words : List Bytes} {op : Op}
    (read : readCommand flavor keyspace words = .ok op) (untimed : op.timeout = none) :
    Accepts flavor keyspace op words := by
  unfold readCommand at read
  split at read
  · rename_i named
    obtain ⟨set, parsed, rfl⟩ := map_eq_ok.mp read
    exact .tensorSet named parsed
  · rename_i named
    obtain ⟨get, parsed, rfl⟩ := map_eq_ok.mp read
    exact .tensorGet named parsed
  · rename_i named
    cases flavor with
    | execute =>
        obtain ⟨run, parsed, rfl⟩ := map_eq_ok.mp read
        exact .modelExecute named (Or.inl rfl) parsed untimed
    | executeReadOnly =>
        obtain ⟨run, parsed, rfl⟩ := map_eq_ok.mp read
        exact .modelExecute named (Or.inr rfl) parsed untimed
    | run => cases read
    | runReadOnly => cases read
  · rename_i named
    cases flavor with
    | execute => cases read
    | executeReadOnly => cases read
    | run =>
        obtain ⟨run, parsed, rfl⟩ := map_eq_ok.mp read
        exact .modelRun named (Or.inl rfl) parsed untimed
    | runReadOnly =>
        obtain ⟨run, parsed, rfl⟩ := map_eq_ok.mp read
        exact .modelRun named (Or.inr rfl) parsed untimed
  · rename_i named
    cases flavor with
    | execute =>
        obtain ⟨run, parsed, rfl⟩ := map_eq_ok.mp read
        exact .scriptExecute named rfl parsed untimed
    | _ => cases read
  · rename_i named
    cases flavor with
    | run =>
        obtain ⟨run, parsed, rfl⟩ := map_eq_ok.mp read
        exact .scriptRun named rfl parsed untimed
    | _ => cases read
  · cases read

theorem readCommand_of_accepts {words : List Bytes} {op : Op}
    (accepted : Accepts flavor keyspace op words) :
    readCommand flavor keyspace words = .ok op ∧ op.timeout = none := by
  cases accepted with
  | tensorSet named parsed => exact ⟨by simp only [readCommand, named, parsed, Except.map], rfl⟩
  | tensorGet named parsed => exact ⟨by simp only [readCommand, named, parsed, Except.map], rfl⟩
  | modelExecute named allowed parsed untimed =>
      refine ⟨?_, untimed⟩
      rcases allowed with rfl | rfl
      all_goals simp [readCommand, named, readModelRun, DagFlavor.isDeprecated, parsed, Except.map]
  | modelRun named allowed parsed untimed =>
      refine ⟨?_, untimed⟩
      rcases allowed with rfl | rfl
      all_goals simp [readCommand, named, readModelRun, DagFlavor.isDeprecated, parsed, Except.map]
  | scriptExecute named allowed parsed untimed =>
      subst allowed
      refine ⟨?_, untimed⟩
      simp [readCommand, named, readScriptRun, DagFlavor.isDeprecated, DagFlavor.isReadOnly, parsed,
        Except.map]
  | scriptRun named allowed parsed untimed =>
      subst allowed
      refine ⟨?_, untimed⟩
      simp [readCommand, named, readScriptRun, DagFlavor.isDeprecated, DagFlavor.isReadOnly, parsed,
        Except.map]

theorem readOp_eq_ok_iff {words : List Bytes} {op : Op} :
    readOp flavor keyspace words = .ok op ↔ Accepts flavor keyspace op words := by
  constructor
  · intro read
    obtain ⟨known, command, checked⟩ := bind_eq_ok.mp read
    split at checked
    · cases checked
    · rename_i untimed
      cases checked
      exact accepts_of_readCommand command (Option.not_isSome_iff_eq_none.mp untimed)
  · intro accepted
    obtain ⟨read, untimed⟩ := readCommand_of_accepts accepted
    refine bind_eq_ok.mpr ⟨op, read, ?_⟩
    rw [untimed]
    rfl

/-- Operations are read from the parts between separators, none of which is empty. -/
theorem readOps_eq_ok_iff {parts : List (List Bytes)} {ops : List Op} :
    readOps flavor keyspace parts = .ok ops ↔
      ∃ operations : List (Phrase Op), (∀ operation ∈ operations, operation.words ≠ []) ∧
        (∀ operation ∈ operations,
          Accepts flavor keyspace operation.meaning operation.words) ∧
        operations.map Phrase.words = parts ∧ operations.map Phrase.meaning = ops := by
  induction parts generalizing ops with
  | nil =>
      constructor
      · intro read
        cases read
        exact ⟨[], nofun, nofun, rfl, rfl⟩
      · rintro ⟨operations, _, _, empty, rfl⟩
        rw [List.map_eq_nil_iff.mp empty]
        rfl
  | cons part others ih =>
      constructor
      · intro read
        unfold readOps at read
        split at read
        · cases read
        · rename_i filled
          obtain ⟨op, first, read⟩ := bind_eq_ok.mp read
          obtain ⟨behind, others, read⟩ := bind_eq_ok.mp read
          cases read
          obtain ⟨operations, several, accepted, rfl, rfl⟩ := ih.mp others
          refine ⟨⟨op, part⟩ :: operations, List.forall_mem_cons.mpr ⟨?_, several⟩,
            List.forall_mem_cons.mpr ⟨readOp_eq_ok_iff.mp first, accepted⟩, rfl, rfl⟩
          exact fun empty => filled (List.isEmpty_iff.mpr empty)
      · rintro ⟨operations, several, accepted, same, rfl⟩
        obtain ⟨operation, behind, rfl, rfl, rfl⟩ := List.map_eq_cons_iff.mp same
        obtain ⟨filled, several⟩ := List.forall_mem_cons.mp several
        obtain ⟨first, accepted⟩ := List.forall_mem_cons.mp accepted
        have rest := ih.mpr ⟨behind, several, accepted, rfl, rfl⟩
        rw [readOps, if_neg (fun empty => filled (List.isEmpty_iff.mp empty))]
        exact bind_eq_ok.mpr ⟨operation.meaning, readOp_eq_ok_iff.mpr first,
          bind_eq_ok.mpr ⟨behind.map Phrase.meaning, rest, rfl⟩⟩

theorem readSegments_eq_ok_iff {words : List Bytes} {ops : List Op} :
    readOps flavor keyspace (segments words) = .ok ops ↔
      ∃ operations : List (Phrase Op), (∀ operation ∈ operations, operation.words ≠ []) ∧
        (∀ operation ∈ operations, chain ∉ operation.words) ∧
        (∀ operation ∈ operations,
          Accepts flavor keyspace operation.meaning operation.words) ∧
        chain :: words = (operations.map Phrase.words).flatMap (chain :: ·) ∧
        operations.map Phrase.meaning = ops := by
  rw [readOps_eq_ok_iff]
  constructor
  · rintro ⟨operations, filled, accepted, cut, rfl⟩
    obtain ⟨part, parts, same, joined, apart, others⟩ := join_segments words
    rw [same] at cut
    refine ⟨operations, filled, ?_, accepted, by rw [cut, joined]; rfl, rfl⟩
    have separate : ∀ other ∈ part :: parts, chain ∉ other :=
      List.forall_mem_cons.mpr ⟨apart, others⟩
    rw [← cut] at separate
    exact fun operation member => separate _ (List.mem_map_of_mem member)
  · rintro ⟨operations, filled, apart, accepted, joined, rfl⟩
    cases operations with
    | nil => cases joined
    | cons first behind =>
        obtain ⟨_, rfl⟩ := List.cons.inj joined
        obtain ⟨apart, others⟩ := List.forall_mem_cons.mp apart
        refine ⟨first :: behind, filled, accepted, ?_, rfl⟩
        exact (segments_join apart (List.forall_mem_map.mpr others)).symm

/-! ### Names -/

theorem boundNames_of_ordered {available : List String} {ops : List Op}
    (ordered : Ordered available ops) :
    boundNames available ops = .ok (available ++ ops.flatMap Op.outputs) := by
  induction ops generalizing available with
  | nil => rw [boundNames, List.flatMap_nil, List.append_nil]
  | cons op others ih =>
      have known : op.inputs.all available.contains = true := by
        refine List.all_eq_true.mpr fun name reads => List.contains_iff_mem.mpr ?_
        rcases ordered 0 op rfl name reads with there | ⟨earlier, _, before, _⟩
        · exact there
        · exact absurd before (Nat.not_lt_zero earlier)
      have behind : Ordered (available ++ op.outputs) others := by
        intro index reader located name reads
        rcases ordered (index + 1) reader located name reads with
          there | ⟨earlier, producer, before, found, writes⟩
        · exact Or.inl (List.mem_append_left _ there)
        · cases earlier with
          | zero =>
              cases found
              exact Or.inl (List.mem_append_right _ writes)
          | succ earlier =>
              exact Or.inr ⟨earlier, producer, Nat.lt_of_succ_lt_succ before, found, writes⟩
      rw [boundNames, if_pos known, ih behind, List.flatMap_cons, List.append_assoc]

theorem validateNames_eq_ok_iff : validateNames dag = .ok () ↔
    Ordered dag.load dag.ops ∧
      ∀ name ∈ dag.persist, name ∈ dag.load ∨ ∃ op ∈ dag.ops, name ∈ op.outputs := by
  have there (name : String) : (dag.load ++ dag.ops.flatMap Op.outputs).contains name = true ↔
      name ∈ dag.load ∨ ∃ op ∈ dag.ops, name ∈ op.outputs := by
    rw [List.contains_iff_mem, List.mem_append, List.mem_flatMap]
  constructor
  · intro valid
    obtain ⟨bound, checked, persisted⟩ := bind_eq_ok.mp valid
    obtain ⟨ordered, rfl⟩ := ordered_of_boundNames checked
    refine ⟨ordered, fun name member => (there name).mp ?_⟩
    split at persisted
    · rename_i known
      exact List.all_eq_true.mp known name member
    · cases persisted
  · rintro ⟨ordered, persisted⟩
    refine bind_eq_ok.mpr ⟨_, boundNames_of_ordered ordered, ?_⟩
    exact if_pos (List.all_eq_true.mpr fun name member => (there name).mpr (persisted name member))

/-! ### Keys and lengths -/

/-- Whether a graph says with which keys it goes. -/
def Keyed (dag : Dag) : Prop := dag.routing ≠ none ∨ dag.load ≠ [] ∨ dag.persist ≠ []

theorem ne_nil_of_counted {count : Bytes} {keys : List String}
    (counted : Decimal.positive? count = some keys.length) : keys ≠ [] := by
  rintro rfl
  exact absurd (Decimal.positive?_eq_some_iff.mp counted).1 (Nat.lt_irrefl 0)

theorem Clause.keyed_enter {clause : Clause} {words : List Bytes}
    (spelled : clause.Spelled words) :
    Keyed (clause.enter dag) ↔ Keyed dag ∨ clause.kind ≠ .timeout := by
  obtain ⟨_, _, _, _, body⟩ := spelled
  cases body with
  | load counted _ =>
      have nonempty := ne_nil_of_counted counted
      simp [Clause.enter, Keyed, Clause.kind, nonempty]
  | persist counted _ _ =>
      have nonempty := ne_nil_of_counted counted
      simp [Clause.enter, Keyed, Clause.kind, nonempty]
  | routing _ => simp [Clause.enter, Keyed, Clause.kind]
  | timeout _ => simp [Clause.enter, Keyed, Clause.kind]

theorem keyed_foldl {clauses : List (Phrase Clause)}
    (spelled : ∀ clause ∈ clauses, clause.meaning.Spelled clause.words) :
    Keyed ((clauses.map Phrase.meaning).foldl Clause.enter dag) ↔
      Keyed dag ∨ ∃ clause ∈ clauses, clause.meaning.kind ≠ .timeout := by
  induction clauses generalizing dag with
  | nil => simp
  | cons clause others ih =>
      obtain ⟨first, behind⟩ := List.forall_mem_cons.mp spelled
      rw [List.map_cons, List.foldl_cons, ih behind, Clause.keyed_enter first, or_assoc,
        List.exists_mem_cons_iff]

theorem keyed_header {clauses : List (Phrase Clause)}
    (spelled : ∀ clause ∈ clauses, clause.meaning.Spelled clause.words) :
    Keyed ((clauses.map Phrase.meaning).foldl Clause.enter (blank flavor)) ↔
      ∃ clause ∈ clauses, clause.meaning.kind ≠ .timeout := by
  rw [keyed_foldl spelled]
  simp [Keyed, blank]

theorem refused_iff_not_keyed : (!flavor.isDeprecated && dag.routing.isNone && dag.load.isEmpty &&
    dag.persist.isEmpty) = true ↔ flavor.isDeprecated = false ∧ ¬ Keyed dag := by
  simp [Keyed, and_assoc]

theorem Clause.two_le_length {clause : Clause} {words : List Bytes}
    (spelled : clause.Spelled words) : 2 ≤ words.length := by
  obtain ⟨_, _, rfl, _, body⟩ := spelled
  cases body <;> simp

theorem Accepts.two_le_length {op : Op} {words : List Bytes}
    (accepted : Accepts flavor keyspace op words) : 2 ≤ words.length := by
  cases accepted with
  | tensorSet _ read =>
      unfold TensorSet.ofArguments at read
      split at read
      · simp
      · cases read
  | tensorGet _ read =>
      unfold TensorGet.ofArguments at read
      split at read
      · simp
      · cases read
  | modelExecute _ _ read _ =>
      unfold ModelRun.ofExecute at read
      split at read
      · simp
      · cases read
  | modelRun _ _ read _ =>
      unfold ModelRun.ofRun at read
      split at read
      · simp
      · cases read
  | scriptExecute _ _ read _ =>
      unfold ScriptRun.ofExecute at read
      split at read
      · simp
      · cases read
  | scriptRun _ _ read _ =>
      unfold ScriptRun.ofRun at read
      split at read
      · simp
      · cases read

theorem length_le_flatMap {α : Type} {parts : List (Phrase α)} {part : Phrase α}
    (member : part ∈ parts) : part.words.length ≤ (parts.flatMap Phrase.words).length :=
  (List.sublist_flatten_of_mem (List.mem_map_of_mem member)).length_le

/-! ### Commands -/

variable {sentence : Sentence}

theorem Sentence.tail_arguments (sentence : Sentence) :
    sentence.arguments.drop 1 = sentence.clauses.flatMap Phrase.words ++
      (sentence.operations.map Phrase.words).flatMap (chain :: ·) := by
  rw [List.flatMap_map]
  rfl

/-- A deprecated command has two words in an operation; any other has two in a clause too. -/
theorem Sentence.Valid.checkLength (valid : sentence.Valid flavor keyspace) :
    Dag.checkLength flavor sentence.arguments = .ok () := by
  obtain ⟨first, behind, several⟩ := List.exists_cons_of_ne_nil valid.several
  have words := (valid.accepted first (several ▸ List.mem_cons_self ..)).two_le_length
  have length : sentence.arguments.length = 1 + (sentence.clauses.flatMap Phrase.words).length +
      (1 + first.words.length +
        (behind.flatMap fun operation => chain :: operation.words).length) := by
    simp only [Sentence.arguments, several, List.flatMap_cons, List.length_append,
      List.length_cons]
    omega
  unfold Dag.checkLength
  cases deprecated : flavor.isDeprecated with
  | true => exact (if_pos rfl).trans (if_neg (by omega))
  | false =>
      obtain ⟨clause, inClauses, _⟩ := valid.keyed deprecated
      have spelled := Clause.two_le_length (valid.spelled clause inClauses)
      have inside := length_le_flatMap inClauses
      exact (if_neg Bool.false_ne_true).trans (if_neg (by omega))

theorem ofArguments_of_valid (valid : sentence.Valid flavor keyspace) :
    Dag.ofArguments flavor keyspace sentence.arguments = .ok (sentence.graph flavor) := by
  obtain ⟨words, joined⟩ : ∃ words,
      chain :: words = (sentence.operations.map Phrase.words).flatMap (chain :: ·) := by
    obtain ⟨first, behind, several⟩ := List.exists_cons_of_ne_nil valid.several
    exact several ▸ ⟨_, rfl⟩
  have clauses : readClauses flavor [] (blank flavor) (sentence.arguments.drop 1) =
      .ok (sentence.header flavor, chain :: words) :=
    readClauses_eq_ok_iff.mpr ⟨sentence.clauses, valid.toListed, fun _ _ => List.not_mem_nil,
      joined ▸ sentence.tail_arguments, fun _ opens => (Option.some.inj opens).symm, rfl⟩
  have ops : readOps flavor keyspace (segments words) =
      .ok (sentence.operations.map Phrase.meaning) :=
    readSegments_eq_ok_iff.mpr
      ⟨sentence.operations, valid.filled, valid.apart, valid.accepted, joined, rfl⟩
  have names : validateNames (sentence.graph flavor) = .ok () :=
    validateNames_eq_ok_iff.mpr ⟨valid.ordered, valid.persisted⟩
  refine bind_eq_ok.mpr ⟨(), valid.checkLength, bind_eq_ok.mpr ⟨_, clauses, ?_⟩⟩
  dsimp only
  rw [if_neg]
  · exact bind_eq_ok.mpr ⟨_, ops, bind_eq_ok.mpr ⟨(), names, rfl⟩⟩
  · rw [refused_iff_not_keyed]
    rintro ⟨modern, unkeyed⟩
    exact unkeyed ((keyed_header valid.spelled).mpr (valid.keyed modern))

theorem exists_valid_of_ofArguments (read : Dag.ofArguments flavor keyspace arguments = .ok dag) :
    ∃ sentence : Sentence, sentence.Valid flavor keyspace ∧ sentence.arguments = arguments ∧
      sentence.graph flavor = dag := by
  obtain ⟨_, _, read⟩ := bind_eq_ok.mp read
  obtain ⟨⟨header, rest⟩, headed, read⟩ := bind_eq_ok.mp read
  obtain ⟨clauses, listed, _, spelled, opens, rfl⟩ := readClauses_eq_ok_iff.mp headed
  dsimp only at read
  split at read
  · cases read
  · rename_i keyed
    cases rest with
    | nil => cases read
    | cons separator words =>
        obtain rfl := opens separator rfl
        obtain ⟨ops, parsed, read⟩ := bind_eq_ok.mp read
        obtain ⟨_, names, read⟩ := bind_eq_ok.mp read
        cases read
        obtain ⟨ordered, persisted⟩ := validateNames_eq_ok_iff.mp names
        obtain ⟨operations, filled, apart, accepted, joined, rfl⟩ :=
          readSegments_eq_ok_iff.mp parsed
        cases arguments with
        | nil =>
            have empty := congrArg List.length spelled
            simp at empty
        | cons command behind =>
            refine ⟨⟨command, clauses, operations⟩,
              ⟨listed, ?_, ?_, filled, apart, accepted, ordered, persisted⟩, ?_, rfl⟩
            · intro modern
              rw [refused_iff_not_keyed, not_and, Classical.not_not] at keyed
              exact (keyed_header listed.spelled).mp (keyed modern)
            · rintro rfl
              cases joined
            · have tail := Sentence.tail_arguments ⟨command, clauses, operations⟩
              rw [← joined, ← spelled] at tail
              exact congrArg (command :: ·) tail

/-- The commands that run graphs are exactly the words of valid sentences, and a sentence says the
graph that its words are read as. -/
theorem ofArguments_eq_ok_iff : Dag.ofArguments flavor keyspace arguments = .ok dag ↔
    ∃ sentence : Sentence, sentence.Valid flavor keyspace ∧ sentence.arguments = arguments ∧
      sentence.graph flavor = dag := by
  constructor
  · exact exists_valid_of_ofArguments
  · rintro ⟨sentence, valid, rfl, rfl⟩
    exact ofArguments_of_valid valid

end Dag

end InferenceStore
