import InferenceStore.Proofs.Dag.Language

/-
Commands that store tensors as operations of a graph. The words of an operation end at the next
separator, whatever stands there, so the separator is the one argument that such a command cannot
have in a graph. With it the command is never cut where another one could end: a keyword would be
left without its payload, or values would be missing.
-/

namespace InferenceStore

open Command Outcome

namespace Command

/-! ### Commands that are cut off -/

variable {front back : List Bytes} {shape : List Nat}

theorem not_isDataKeyword_chain : isDataKeyword chain = false := by decide +kernel

/-- Dimensions that end at a keyword end there whatever follows, and there is no dimension that is
a separator. -/
theorem dimensions_of_cut {left right : List Nat × List Bytes}
    (cut : dimensions front = .ok left)
    (whole : dimensions (front ++ chain :: back) = .ok right) :
    left.2 ≠ [] ∧ right = (left.1, left.2 ++ chain :: back) := by
  induction front generalizing left right with
  | nil =>
      have number : Decimal.positive? chain = none := by decide +kernel
      simp only [List.nil_append, dimensions, not_isDataKeyword_chain, number, Bool.false_eq_true,
        if_false] at whole
      cases whole
  | cons word rest ih =>
      rw [List.cons_append] at whole
      rw [dimensions] at cut whole
      split at cut
      · rename_i ends
        rw [if_pos ends] at whole
        cases cut
        cases whole
        exact ⟨List.cons_ne_nil word rest, rfl⟩
      · rename_i goesOn
        rw [if_neg goesOn] at whole
        cases number : Decimal.positive? word with
        | none =>
            rw [number] at cut
            cases cut
        | some dimension =>
            rw [number] at cut whole
            obtain ⟨⟨others, data⟩, read, same⟩ := bind_eq_ok.mp cut
            obtain ⟨⟨more, behind⟩, further, equal⟩ := bind_eq_ok.mp whole
            cases same
            cases equal
            obtain ⟨nonempty, same⟩ := ih read further
            cases same
            exact ⟨nonempty, rfl⟩

theorem length_of_tensorOfData {dtype : DType} {count : Nat} {keyword : Bytes} {data : List Bytes}
    {tensor : Tensor} (made : tensorOfData dtype shape count (keyword :: data) = .ok tensor) :
    data.length = if Text.isKeyword keyword "BLOB" then 1 else count := by
  cases named : Text.isKeyword keyword "BLOB" with
  | true =>
      match data with
      | [blob] => rfl
      | [] => simp [tensorOfData, named] at made
      | first :: second :: rest => simp [tensorOfData, named] at made
  | false =>
      by_contra differs
      have other : data.length ≠ count := differs
      simp [tensorOfData, named, other] at made

theorem TensorSet.parts_of_ofArguments {words : List Bytes} {set : TensorSet}
    (read : TensorSet.ofArguments words = .ok set) :
    ∃ name key dtype kind rest shape data count, words = name :: key :: dtype :: rest ∧
      DType.ofName? dtype = some kind ∧ dimensions rest = .ok (shape, data) ∧
      Shape.elementCount? shape = some count ∧
      tensorOfData kind shape count data = .ok set.tensor := by
  unfold TensorSet.ofArguments at read
  split at read
  · rename_i name key dtype dimension rest
    obtain ⟨spelled, _, read⟩ := bind_eq_ok.mp read
    split at read
    · cases read
    · rename_i kind known
      obtain ⟨⟨shape, data⟩, sized, read⟩ := bind_eq_ok.mp read
      dsimp only at read
      split at read
      · cases read
      · rename_i count counted
        obtain ⟨tensor, made, read⟩ := bind_eq_ok.mp read
        cases read
        exact ⟨name, key, dtype, kind, dimension :: rest, shape, data, count, rfl, known, sized,
          counted, made⟩
  · cases read

/-- A command that stores a tensor is none any more when a separator and more words follow. -/
theorem TensorSet.not_cut {set other : TensorSet} (cut : TensorSet.ofArguments front = .ok set) :
    TensorSet.ofArguments (front ++ chain :: back) ≠ .ok other := by
  intro whole
  obtain ⟨name, key, dtype, kind, rest, shape, data, count, rfl, known, sized, counted, made⟩ :=
    parts_of_ofArguments cut
  obtain ⟨_, _, _, _, _, _, _, _, same, sameKind, extended, sameCount, longer⟩ :=
    parts_of_ofArguments whole
  obtain ⟨rfl, rfl, rfl, rfl⟩ : _ ∧ _ ∧ _ ∧ _ := by simpa using same
  obtain ⟨nonempty, same⟩ := dimensions_of_cut sized extended
  cases same
  cases known.symm.trans sameKind
  cases counted.symm.trans sameCount
  obtain ⟨keyword, payload, rfl⟩ := List.exists_cons_of_ne_nil nonempty
  have short := length_of_tensorOfData made
  have long : (payload ++ chain :: back).length = _ := length_of_tensorOfData longer
  rw [List.length_append, List.length_cons] at long
  omega

end Command

namespace Dag

variable {keyspace : Keyspace} {words : List Bytes} {set : TensorSet}

def storing (key : String) (set : TensorSet) : Dag :=
  { blank .execute with
    ops := [.tensorSet set]
    routing := some key }

/-- `AI.DAGEXECUTE ROUTING key |> word...` -/
def routed (key : String) (words : List Bytes) : List Bytes :=
  Text.encode "AI.DAGEXECUTE" :: Text.encode "ROUTING" :: Text.encode key :: chain :: words

def routingClause (key : String) : Phrase Clause :=
  ⟨.routing key, [Text.encode "ROUTING", Text.encode key]⟩

theorem listed_routingClause {key : String} (elsewhere : key ≠ "|>") :
    Clause.Listed .execute [routingClause key] :=
  Clause.listed_cons.mpr
    ⟨⟨_, _, rfl, Text.isKeyword_encode _, .routing elsewhere⟩, ⟨nofun, fun _ => rfl⟩, nofun,
      .nil .execute⟩

theorem ofArguments_routed {key : String} (elsewhere : key ≠ "|>") (long : 2 ≤ words.length) :
    Dag.ofArguments .execute keyspace (routed key words) = (do
      let ops ← readOps .execute keyspace (segments words)
      let dag := { blank .execute with ops := ops, routing := some key }
      validateNames dag
      pure dag) := by
  have clauses : readClauses .execute [] (blank .execute) ((routed key words).drop 1) =
      .ok ({ blank .execute with routing := some key }, chain :: words) :=
    readClauses_eq_ok_iff.mpr ⟨[routingClause key], listed_routingClause elsewhere,
      fun _ _ => List.not_mem_nil, rfl, fun _ opens => (Option.some.inj opens).symm, rfl⟩
  have length : checkLength .execute (routed key words) = .ok () := by
    refine (if_neg Bool.false_ne_true).trans (if_neg ?_)
    simp only [routed, List.length_cons]
    omega
  rw [Dag.ofArguments, length, clauses]
  rfl

theorem ofArguments_of_routed {key : String} (elsewhere : key ≠ "|>") (apart : chain ∉ words)
    (named : Command.name words = "AI.TENSORSET") (read : TensorSet.ofArguments words = .ok set) :
    Dag.ofArguments .execute keyspace (routed key words) = .ok (storing key set) := by
  have accepted : Accepts .execute keyspace (.tensorSet set) words := .tensorSet named read
  let sentence : Sentence :=
    ⟨Text.encode "AI.DAGEXECUTE", [routingClause key], [⟨.tensorSet set, words⟩]⟩
  have valid : sentence.Valid .execute keyspace :=
    { listed_routingClause elsewhere with
      keyed := fun _ => ⟨_, List.mem_singleton.mpr rfl, nofun⟩
      several := nofun
      filled := by
        refine List.forall_mem_singleton.mpr fun empty => ?_
        subst empty
        cases read
      apart := List.forall_mem_singleton.mpr apart
      accepted := List.forall_mem_singleton.mpr accepted
      ordered := by
        intro index op located name reads
        cases index with
        | zero =>
            cases located
            cases reads
        | succ index => cases located
      persisted := nofun }
  have spelled : sentence.arguments = routed key words := by
    simp [sentence, Sentence.arguments, routingClause, routed]
  exact spelled ▸ ofArguments_of_valid valid

theorem exists_tensorSet_of_accepts {op : Op} {flavor : DagFlavor}
    (accepted : Accepts flavor keyspace op words) (named : Command.name words = "AI.TENSORSET") :
    ∃ set, TensorSet.ofArguments words = .ok set := by
  cases accepted with
  | tensorSet _ read => exact ⟨_, read⟩
  | tensorGet other => exact absurd (named.symm.trans other) (by decide)
  | modelExecute other => exact absurd (named.symm.trans other) (by decide)
  | modelRun other => exact absurd (named.symm.trans other) (by decide)
  | scriptExecute other => exact absurd (named.symm.trans other) (by decide)
  | scriptRun other => exact absurd (named.symm.trans other) (by decide)

theorem name_of_front {front back : List Bytes} (filled : front ≠ [])
    (joined : words = front ++ back) : Command.name front = Command.name words := by
  obtain ⟨first, rest, rfl⟩ := List.exists_cons_of_ne_nil filled
  rw [joined]
  rfl

theorem not_ofArguments_of_routed {key : String} (elsewhere : key ≠ "|>") (inside : chain ∈ words)
    (named : Command.name words = "AI.TENSORSET") (read : TensorSet.ofArguments words = .ok set)
    (dag : Dag) : Dag.ofArguments .execute keyspace (routed key words) ≠ .ok dag := by
  intro whole
  have alone : Accepts .execute keyspace (.tensorSet set) words := .tensorSet named read
  rw [ofArguments_routed elsewhere alone.two_le_length] at whole
  obtain ⟨ops, parsed, _⟩ := bind_eq_ok.mp whole
  obtain ⟨operations, filled, apart, accepted, joined, rfl⟩ := readSegments_eq_ok_iff.mp parsed
  cases operations with
  | nil => cases joined
  | cons first behind =>
      obtain ⟨_, joined⟩ := List.cons.inj joined
      change words = first.words ++ (behind.map Phrase.words).flatMap (chain :: ·) at joined
      have nonempty := filled first List.mem_cons_self
      have uncut := apart first List.mem_cons_self
      have taken := accepted first List.mem_cons_self
      cases behind with
      | nil => exact uncut (by simpa [joined] using inside)
      | cons second others =>
          obtain ⟨set, cut⟩ := exists_tensorSet_of_accepts taken
            ((name_of_front nonempty joined).trans named)
          subst joined
          exact TensorSet.not_cut cut read

/-- Any command that stores a tensor can be an operation of a graph and stores the same there, if
the separator is not among its words. With the separator among them there is no such graph. -/
theorem reads_tensor_set (keyspace : Keyspace) (key : String) (words : List Bytes)
    (set : TensorSet) (elsewhere : key ≠ "|>") (named : Command.name words = "AI.TENSORSET")
    (read : TensorSet.ofArguments words = .ok set) :
    (chain ∉ words →
      Dag.ofArguments .execute keyspace (routed key words) = .ok (storing key set)) ∧
    (chain ∈ words → ∀ dag, Dag.ofArguments .execute keyspace (routed key words) ≠ .ok dag) :=
  ⟨fun apart => ofArguments_of_routed elsewhere apart named read,
    fun inside dag => not_ofArguments_of_routed elsewhere inside named read dag⟩

/-- A buffer of two bytes, beside one with the bytes of the separator. -/
theorem reads_tensor_set_of_bytes : ∃ set,
    TensorSet.ofArguments (["AI.TENSORSET", "t", "INT8", "2", "BLOB", "<|"].map Text.encode) =
      .ok set ∧
    Dag.ofArguments .execute .empty
      (routed "k" (["AI.TENSORSET", "t", "INT8", "2", "BLOB", "<|"].map Text.encode)) =
        .ok (storing "k" set) := by
  have read : TensorSet.ofArguments
      (["AI.TENSORSET", "t", "INT8", "2", "BLOB", "<|"].map Text.encode) =
        .ok ⟨"t", ⟨.int8, [2], [60, 124], by decide⟩⟩ := by decide +kernel
  exact ⟨_, read, (reads_tensor_set .empty "k" _ _ (by decide) (by decide +kernel) read).1
    (by decide +kernel)⟩

/-- The bytes of the separator are a buffer on their own, and none in a graph. -/
theorem separator_is_no_payload :
    (∃ set, TensorSet.ofArguments
      (["AI.TENSORSET", "t", "INT8", "2", "BLOB", "|>"].map Text.encode) = .ok set) ∧
    Dag.ofArguments .execute .empty
      (routed "k" (["AI.TENSORSET", "t", "INT8", "2", "BLOB", "|>"].map Text.encode)) =
        .error (.tensor .singleBlob) := by
  constructor
  · exact ⟨⟨"t", ⟨.int8, [2], [124, 62], by decide⟩⟩, by decide +kernel⟩
  · have cut : segments (["AI.TENSORSET", "t", "INT8", "2", "BLOB", "|>"].map Text.encode) =
        [["AI.TENSORSET", "t", "INT8", "2", "BLOB"].map Text.encode, []] := by decide +kernel
    have named : Command.name (["AI.TENSORSET", "t", "INT8", "2", "BLOB"].map Text.encode) =
        "AI.TENSORSET" := by decide +kernel
    have refused : TensorSet.ofArguments
        (["AI.TENSORSET", "t", "INT8", "2", "BLOB"].map Text.encode) =
          .error (.tensor .singleBlob) := by decide +kernel
    have command : readCommand .execute .empty
        (["AI.TENSORSET", "t", "INT8", "2", "BLOB"].map Text.encode) =
          .error (.tensor .singleBlob) := by
      simp only [readCommand, named, refused]
      rfl
    rw [ofArguments_routed (by decide) (by decide), cut, readOps, readOp, command]
    rfl

end Dag

end InferenceStore
