import InferenceStore.Proofs.Dag.Language
import InferenceStore.Proofs.Dag.Start

/-
Graphs with two neighbouring operations exchanged. If neither of the two reads what the other
writes, the command with their words exchanged is read too, and as the graph with the operations
exchanged: every operation still reads names that are there before it, and every other condition
asks which operations there are, not in which order.
-/

namespace InferenceStore

open Command Outcome

/-- The items with the one at a position and the one behind it exchanged, if both are there. -/
def exchangeAt {α : Type} : Nat → List α → List α
  | 0, first :: second :: rest => second :: first :: rest
  | position + 1, first :: rest => first :: exchangeAt position rest
  | _, items => items

section Exchange

variable {α β : Type} {items : List α} {first second : α} {position : Nat}

theorem exchangeAt_append (front rest : List α) (first second : α) :
    exchangeAt front.length (front ++ first :: second :: rest) =
      front ++ second :: first :: rest := by
  induction front with
  | nil => rfl
  | cons item front ih => exact congrArg (item :: ·) ih

theorem map_exchangeAt (f : α → β) (position : Nat) (items : List α) :
    (exchangeAt position items).map f = exchangeAt position (items.map f) := by
  fun_induction exchangeAt position items with
  | case1 => rfl
  | case2 position first rest ih => exact congrArg (f first :: ·) ih
  | case3 position items short long =>
      cases position with
      | zero =>
          match items with
          | [] => rfl
          | [only] => rfl
          | first :: second :: rest => exact (short first second rest rfl rfl).elim
      | succ position =>
          cases items with
          | nil => rfl
          | cons first rest => exact (long position first rest rfl rfl).elim

theorem perm_exchangeAt (position : Nat) (items : List α) :
    (exchangeAt position items).Perm items := by
  fun_induction exchangeAt position items with
  | case1 first second rest => exact .swap first second rest
  | case2 position first rest ih => exact ih.cons first
  | case3 => exact .refl _

theorem mem_exchangeAt {item : α} : item ∈ exchangeAt position items ↔ item ∈ items :=
  (perm_exchangeAt position items).mem_iff

theorem exists_neighbours (here : items[position]? = some first)
    (behind : items[position + 1]? = some second) :
    ∃ front rest, items = front ++ first :: second :: rest ∧ front.length = position := by
  obtain ⟨within, same⟩ := List.getElem?_eq_some_iff.mp here
  obtain ⟨inside, next⟩ := List.getElem?_eq_some_iff.mp behind
  refine ⟨items.take position, items.drop (position + 1 + 1), ?_,
    List.length_take_of_le (Nat.le_of_lt within)⟩
  calc items = items.take position ++ items.drop position := (List.take_append_drop ..).symm
    _ = _ := by
      rw [List.drop_eq_getElem_cons within, same, List.drop_eq_getElem_cons inside, next]

end Exchange

/-- Neither reads nor overwrites what the other writes. -/
structure Op.Independent (first second : Op) : Prop where
  outputs : first.outputs.Disjoint second.outputs
  onward : first.outputs.Disjoint second.inputs
  back : second.outputs.Disjoint first.inputs

namespace Dag

def exchange (position : Nat) (dag : Dag) : Dag := { dag with ops := exchangeAt position dag.ops }

def exchangeWords (position : Nat) (arguments : List Bytes) : List Bytes :=
  [chain].intercalate (exchangeAt (position + 1) (segments arguments))

/-! ### Names -/

theorem ordered_iff {available : List String} {ops : List Op} :
    Ordered available ops ↔ ∃ bound, boundNames available ops = .ok bound :=
  ⟨fun ordered => ⟨_, boundNames_of_ordered ordered⟩,
    fun ⟨_, checked⟩ => (ordered_of_boundNames checked).1⟩

theorem ordered_cons {available : List String} {op : Op} {ops : List Op} :
    Ordered available (op :: ops) ↔
      op.inputs ⊆ available ∧ Ordered (available ++ op.outputs) ops := by
  have known : op.inputs.all available.contains = true ↔ op.inputs ⊆ available := by
    simp only [List.all_eq_true, List.contains_iff_mem, List.subset_def]
  rw [ordered_iff, ordered_iff, boundNames, ← known]
  split <;> simp [*]

theorem Ordered.mono {available more : List String} {ops : List Op}
    (ordered : Ordered available ops) (within : available ⊆ more) : Ordered more ops := by
  intro index op located name reads
  exact (ordered index op located name reads).imp_left fun there => within there

/-- An operation that reads nothing of the one before it may go first. -/
theorem ordered_exchanged {available : List String} {first second : Op} {front rest : List Op}
    (onward : first.outputs.Disjoint second.inputs)
    (ordered : Ordered available (front ++ first :: second :: rest)) :
    Ordered available (front ++ second :: first :: rest) := by
  induction front generalizing available with
  | cons op front ih =>
      obtain ⟨inputs, behind⟩ := ordered_cons.mp ordered
      exact ordered_cons.mpr ⟨inputs, ih behind⟩
  | nil =>
      obtain ⟨firstInputs, behind⟩ := ordered_cons.mp ordered
      obtain ⟨secondInputs, others⟩ := ordered_cons.mp behind
      refine ordered_cons.mpr ⟨?_, ordered_cons.mpr ⟨?_, others.mono ?_⟩⟩
      · intro name reads
        rcases List.mem_append.mp (secondInputs reads) with there | written
        · exact there
        · exact (onward written reads).elim
      · exact fun name reads => List.mem_append_left _ (firstInputs reads)
      · intro name there
        simp only [List.mem_append] at there ⊢
        tauto

/-! ### Commands -/

theorem Clause.chain_not_mem {clause : Clause} {words : List Bytes}
    (spelled : clause.Spelled words) : chain ∉ words := by
  obtain ⟨keyword, body, rfl, named, content⟩ := spelled
  have opens : chain ≠ keyword := by
    rintro rfl
    rw [not_keyword_chain] at named
    cases named
  have number {count : Bytes} {value : Nat} (counted : Decimal.positive? count = some value) :
      chain ≠ count := by
    rintro rfl
    rw [not_positive_chain] at counted
    cases counted
  have keyed {keys : List String} (apart : "|>" ∉ keys) : chain ∉ keys.map Text.encode := by
    intro member
    have separates := any_isChain_iff.mpr apart
    rw [List.any_eq_false] at separates
    exact separates chain member (isChain_iff.mpr rfl)
  rw [List.mem_cons, not_or]
  refine ⟨opens, ?_⟩
  cases content with
  | load counted apart =>
      exact fun member => (List.mem_cons.mp member).elim (number counted) (keyed apart)
  | persist counted apart _ =>
      exact fun member => (List.mem_cons.mp member).elim (number counted) (keyed apart)
  | routing apart =>
      intro member
      exact apart (Text.encode_injective (List.mem_singleton.mp member).symm)
  | timeout positive => exact fun member => number positive (List.mem_singleton.mp member)

theorem intercalate_eq (part : List Bytes) (parts : List (List Bytes)) :
    [chain].intercalate (part :: parts) = part ++ parts.flatMap (chain :: ·) := by
  induction parts generalizing part with
  | nil => simp
  | cons next rest ih =>
      rw [List.intercalate_cons_cons, ih, List.flatMap_cons, List.append_assoc]
      rfl

def Sentence.exchange (position : Nat) (sentence : Sentence) : Sentence :=
  { sentence with operations := exchangeAt position sentence.operations }

variable {flavor : DagFlavor} {keyspace : Keyspace} {arguments : List Bytes} {dag : Dag}
  {position : Nat} {first second : Op} {sentence : Sentence}

namespace Sentence

theorem graph_exchange (position : Nat) (sentence : Sentence) :
    (sentence.exchange position).graph flavor = (sentence.graph flavor).exchange position := by
  simp only [graph, exchange, Dag.exchange, header, map_exchangeAt]

theorem arguments_exchange (valid : sentence.Valid flavor keyspace)
    (command : sentence.command ≠ chain) (position : Nat) :
    (sentence.exchange position).arguments = exchangeWords position sentence.arguments := by
  let opening := sentence.command :: sentence.clauses.flatMap Phrase.words
  have joined (operations : List (Phrase Op)) :
      Sentence.arguments ⟨sentence.command, sentence.clauses, operations⟩ =
        opening ++ (operations.map Phrase.words).flatMap (chain :: ·) := by
    rw [List.flatMap_map]
    rfl
  have apart : chain ∉ opening := by
    rw [List.mem_cons, not_or]
    refine ⟨command.symm, fun member => ?_⟩
    obtain ⟨clause, inClauses, inWords⟩ := List.mem_flatMap.mp member
    exact Clause.chain_not_mem (valid.spelled clause inClauses) inWords
  have cut : segments sentence.arguments = opening :: sentence.operations.map Phrase.words :=
    (congrArg segments (joined sentence.operations)).trans
      (segments_join apart (List.forall_mem_map.mpr valid.apart))
  rw [exchangeWords, cut, exchangeAt, intercalate_eq, ← map_exchangeAt]
  exact joined _

/-- Nothing but the names that operations read depends on their order. -/
theorem Valid.exchange (valid : sentence.Valid flavor keyspace)
    (here : (sentence.graph flavor).ops[position]? = some first)
    (behind : (sentence.graph flavor).ops[position + 1]? = some second)
    (onward : first.outputs.Disjoint second.inputs) :
    (sentence.exchange position).Valid flavor keyspace where
  toListed := valid.toListed
  keyed := valid.keyed
  several := by
    intro empty
    have same := (perm_exchangeAt position sentence.operations).length_eq
    rw [show exchangeAt position sentence.operations = [] from empty] at same
    exact valid.several (List.length_eq_zero_iff.mp same.symm)
  filled := fun operation member => valid.filled operation (mem_exchangeAt.mp member)
  apart := fun operation member => valid.apart operation (mem_exchangeAt.mp member)
  accepted := fun operation member => valid.accepted operation (mem_exchangeAt.mp member)
  ordered := by
    rw [graph_exchange]
    obtain ⟨front, rest, parts, rfl⟩ := exists_neighbours here behind
    change Ordered (sentence.graph flavor).load (exchangeAt _ (sentence.graph flavor).ops)
    have ordered := valid.ordered
    rw [parts] at ordered ⊢
    rw [exchangeAt_append]
    exact ordered_exchanged onward ordered
  persisted := by
    rw [graph_exchange]
    intro name persists
    refine (valid.persisted name persists).imp_right ?_
    rintro ⟨op, member, writes⟩
    exact ⟨op, mem_exchangeAt.mpr member, writes⟩

end Sentence

theorem command_ne_chain (named : Command.name sentence.arguments = flavor.name) :
    sentence.command ≠ chain := by
  intro same
  have separator : Text.upper (Text.decodeLossy chain) = "|>" := by decide +kernel
  change Text.upper (Text.decodeLossy sentence.command) = flavor.name at named
  rw [same, separator] at named
  revert named
  cases flavor <;> decide

/-- The command with the words of two neighbours exchanged is read as the graph with the two
exchanged, and it is a command of the same name. -/
theorem ofArguments_exchangeWords (named : Command.name arguments = flavor.name)
    (read : Dag.ofArguments flavor keyspace arguments = .ok dag)
    (here : dag.ops[position]? = some first) (behind : dag.ops[position + 1]? = some second)
    (onward : first.outputs.Disjoint second.inputs) :
    Command.name (exchangeWords position arguments) = flavor.name ∧
      Dag.ofArguments flavor keyspace (exchangeWords position arguments) =
        .ok (dag.exchange position) := by
  obtain ⟨sentence, valid, rfl, rfl⟩ := exists_valid_of_ofArguments read
  have words := Sentence.arguments_exchange valid (command_ne_chain named) position
  have accepted := ofArguments_of_valid (valid.exchange here behind onward)
  rw [words, Sentence.graph_exchange] at accepted
  exact ⟨words ▸ named, accepted⟩

/-! ### The start -/

theorem mem_keys_exchange {key : String} : key ∈ (dag.exchange position).keys ↔ key ∈ dag.keys := by
  simp only [keys, exchange, List.mem_append, List.mem_flatMap, mem_exchangeAt]

theorem refusal?_exchange (engine : Engine) (position : Nat) (dag : Dag) :
    engine.refusal? (dag.exchange position) = engine.refusal? dag := by
  have slots : Slot.crosses (dag.exchange position).keys = Slot.crosses dag.keys :=
    Slot.crosses_congr fun key => mem_keys_exchange
  rw [Engine.refusal?, Engine.refusal?, slots]
  rfl

end Dag

end InferenceStore
