import InferenceStore.Dag.Grammar
import InferenceStore.Proofs.Command.Runs
import Mathlib.Data.List.Nodup

/-
What a graph says once it is read. Its names to persist are distinct, and there are none in a
read-only one. Each operation reads names that are loaded or that an operation before it writes,
and its instances are those that the keyspace holds.
-/

namespace InferenceStore

open Command Outcome

theorem mem_firstOccurrences {name : String} {names : List String} :
    name ∈ firstOccurrences names ↔ name ∈ names := by
  induction names with
  | nil => rfl
  | cons other rest ih =>
      rw [firstOccurrences, List.mem_cons, List.mem_cons, List.mem_filter, ih]
      by_cases same : name = other <;> simp [same]

theorem nodup_firstOccurrences (names : List String) : (firstOccurrences names).Nodup := by
  induction names with
  | nil => exact List.nodup_nil
  | cons name rest ih =>
      refine List.nodup_cons.mpr ⟨?_, ih.filter _⟩
      intro member
      simp at member

/-- The model or script of an operation is what a key holds. -/
def Op.Held (keyspace : Keyspace) : Op → Prop
  | .model run => run.Fits keyspace
  | .script run => ∃ key, keyspace.get? key = some (.script run.script)
  | _ => True

namespace Dag

variable {flavor : DagFlavor} {keyspace : Keyspace} {dag extended : Dag}

/-! ### Clauses -/

/-- What the clauses of a graph see to. -/
structure Headed (flavor : DagFlavor) (dag : Dag) : Prop where
  distinct : dag.persist.Nodup
  readOnly : flavor.isReadOnly = true → dag.persist = []
  several : dag.singleOp = false

theorem headed_blank (flavor : DagFlavor) : Headed flavor (blank flavor) :=
  ⟨List.nodup_nil, fun _ => rfl, rfl⟩

theorem Headed.readClause (headed : Headed flavor dag) {clause : DagClause}
    {arguments rest : List Bytes}
    (read : Dag.readClause flavor dag clause arguments = .ok (extended, rest)) :
    Headed flavor extended := by
  cases clause with
  | load =>
      obtain ⟨⟨keys, behind⟩, _, read⟩ := bind_eq_ok.mp read
      cases read
      exact ⟨headed.distinct, headed.readOnly, headed.several⟩
  | persist =>
      unfold Dag.readClause at read
      dsimp only at read
      split at read
      · cases read
      · rename_i writes
        obtain ⟨⟨keys, behind⟩, _, read⟩ := bind_eq_ok.mp read
        dsimp only at read
        split at read
        · rename_i distinct
          cases read
          exact ⟨distinct ▸ nodup_firstOccurrences keys, fun readOnly => absurd readOnly writes,
            headed.several⟩
        · cases read
  | routing =>
      obtain ⟨⟨value, behind⟩, _, read⟩ := bind_eq_ok.mp read
      obtain ⟨key, _, read⟩ := bind_eq_ok.mp read
      cases read
      exact ⟨headed.distinct, headed.readOnly, headed.several⟩
  | timeout =>
      obtain ⟨⟨value, behind⟩, _, read⟩ := bind_eq_ok.mp read
      obtain ⟨milliseconds, _, read⟩ := bind_eq_ok.mp read
      cases read
      exact ⟨headed.distinct, headed.readOnly, headed.several⟩

theorem Headed.readClauses (headed : Headed flavor dag) {seen : List DagClause}
    {arguments rest : List Bytes}
    (read : Dag.readClauses flavor seen dag arguments = .ok (extended, rest)) :
    Headed flavor extended := by
  fun_induction Dag.readClauses flavor seen dag arguments with
  | case1 =>
      cases read
      exact headed
  | case2 =>
      cases read
      exact headed
  | case3 => cases read
  | case4 => cases read
  | case5 => cases read
  | case6 seen dag argument rest _ clause _ _ next behind found ih =>
      exact ih (headed.readClause found) read

/-! ### Operations -/

theorem held_of_readModelRun {deprecated : Bool} {segment : List Bytes} {op : Op}
    (read : readModelRun flavor keyspace deprecated segment = .ok op) : op.Held keyspace := by
  unfold readModelRun at read
  split at read
  · split at read
    · obtain ⟨run, parsed, same⟩ := map_eq_ok.mp read
      subst same
      exact ModelRun.fits_of_run parsed
    · cases read
  · split at read
    · cases read
    · obtain ⟨run, parsed, same⟩ := map_eq_ok.mp read
      subst same
      exact ModelRun.fits_of_execute parsed

theorem held_of_readScriptRun {deprecated : Bool} {segment : List Bytes} {op : Op}
    (read : readScriptRun flavor keyspace deprecated segment = .ok op) : op.Held keyspace := by
  unfold readScriptRun at read
  split at read
  · split at read
    · cases read
    · split at read
      · cases read
      · obtain ⟨run, parsed, same⟩ := map_eq_ok.mp read
        subst same
        exact ScriptRun.held_of_run parsed
  · split at read
    · cases read
    · split at read
      · cases read
      · obtain ⟨run, parsed, same⟩ := map_eq_ok.mp read
        subst same
        exact ScriptRun.held_of_execute parsed

theorem held_of_readCommand {segment : List Bytes} {op : Op}
    (read : readCommand flavor keyspace segment = .ok op) : op.Held keyspace := by
  unfold readCommand at read
  split at read
  · obtain ⟨set, _, same⟩ := map_eq_ok.mp read
    subst same
    trivial
  · obtain ⟨get, _, same⟩ := map_eq_ok.mp read
    subst same
    trivial
  · exact held_of_readModelRun read
  · exact held_of_readModelRun read
  · exact held_of_readScriptRun read
  · exact held_of_readScriptRun read
  · cases read

theorem held_of_readOps {parts : List (List Bytes)} {ops : List Op}
    (read : readOps flavor keyspace parts = .ok ops) : ∀ op ∈ ops, op.Held keyspace := by
  induction parts generalizing ops with
  | nil =>
      cases read
      exact fun _ member => (List.not_mem_nil member).elim
  | cons segment rest ih =>
      unfold readOps at read
      split at read
      · cases read
      · obtain ⟨op, first, read⟩ := bind_eq_ok.mp read
        obtain ⟨others, behind, read⟩ := bind_eq_ok.mp read
        cases read
        obtain ⟨known, command, checked⟩ := bind_eq_ok.mp first
        split at checked
        · cases checked
        · cases checked
          intro op member
          rcases List.mem_cons.mp member with same | inRest
          · exact same ▸ held_of_readCommand command
          · exact ih behind op inRest

/-! ### Names -/

/-- Each operation reads names that are there from the start or that one before it writes. -/
def Ordered (available : List String) (ops : List Op) : Prop :=
  ∀ (index : Nat) (op : Op), ops[index]? = some op → ∀ name ∈ op.inputs,
    name ∈ available ∨
      ∃ earlier producer, earlier < index ∧ ops[earlier]? = some producer ∧
        name ∈ producer.outputs

theorem ordered_of_boundNames {available bound : List String} {ops : List Op}
    (checked : boundNames available ops = .ok bound) :
    Ordered available ops ∧ bound = available ++ ops.flatMap Op.outputs := by
  induction ops generalizing available with
  | nil =>
      cases checked
      exact ⟨nofun, (List.append_nil _).symm⟩
  | cons op rest ih =>
      unfold boundNames at checked
      split at checked
      · rename_i known
        obtain ⟨ordered, same⟩ := ih checked
        refine ⟨?_, by rw [same, List.flatMap_cons, List.append_assoc]⟩
        intro index reader located name reads
        cases index with
        | zero =>
            cases located
            exact Or.inl (List.contains_iff_mem.mp (List.all_eq_true.mp known name reads))
        | succ index =>
            rcases ordered index reader located name reads with there | ⟨earlier, producer, rest⟩
            · rcases List.mem_append.mp there with loaded | written
              · exact Or.inl loaded
              · exact Or.inr ⟨0, op, Nat.succ_pos index, rfl, written⟩
            · exact Or.inr ⟨earlier + 1, producer, Nat.succ_lt_succ rest.1, rest.2⟩
      · cases checked

structure Read (flavor : DagFlavor) (keyspace : Keyspace) (dag : Dag) : Prop
    extends Headed flavor dag where
  held : ∀ op ∈ dag.ops, op.Held keyspace
  ordered : Ordered dag.load dag.ops
  persisted : ∀ name ∈ dag.persist, name ∈ dag.load ∨ ∃ op ∈ dag.ops, name ∈ op.outputs

theorem read_of_arguments {arguments : List Bytes}
    (read : Dag.ofArguments flavor keyspace arguments = .ok dag) : Read flavor keyspace dag := by
  obtain ⟨_, _, read⟩ := bind_eq_ok.mp read
  obtain ⟨⟨header, rest⟩, clauses, read⟩ := bind_eq_ok.mp read
  dsimp only at read
  split at read
  · cases read
  · split at read
    · cases read
    · obtain ⟨ops, listed, read⟩ := bind_eq_ok.mp read
      obtain ⟨_, valid, read⟩ := bind_eq_ok.mp read
      cases read
      have headed := (headed_blank flavor).readClauses clauses
      obtain ⟨bound, checked, persisted⟩ := bind_eq_ok.mp valid
      obtain ⟨ordered, same⟩ := ordered_of_boundNames checked
      refine ⟨⟨headed.distinct, headed.readOnly, headed.several⟩, held_of_readOps listed, ordered,
        ?_⟩
      split at persisted
      · rename_i known
        intro name member
        have there := List.contains_iff_mem.mp (List.all_eq_true.mp known name member)
        rw [same] at there
        exact (List.mem_append.mp there).imp_right List.mem_flatMap.mp
      · cases persisted

end Dag

end InferenceStore
