import InferenceStore.Engine.Session
import InferenceStore.Proofs.Dag.Grammar

/-
From a command to its first operation. A command that runs a graph is read against the keyspace
of its moment. The graph is refused, and the store is as before, if its keys do not share a slot
where they have to, or if a key to load holds no tensor; else it runs from the tensors loaded.
-/

namespace InferenceStore

open Command Outcome

/-! ### Commands that run graphs -/

/-- The graph that a command runs, and its flavor unless it is a run on its own. -/
inductive Dag.Commanded (keyspace : Keyspace) (arguments : List Bytes) :
    Option DagFlavor → Dag → Prop
  | modelExecute {run : ModelRun} (named : Command.name arguments = "AI.MODELEXECUTE")
      (read : ModelRun.ofExecute keyspace arguments = .ok run) :
      Commanded keyspace arguments none (.single (.model run))
  | modelRun {run : ModelRun} (named : Command.name arguments = "AI.MODELRUN")
      (read : ModelRun.ofRun keyspace arguments = .ok run) :
      Commanded keyspace arguments none (.single (.model run))
  | scriptExecute {run : ScriptRun} (named : Command.name arguments = "AI.SCRIPTEXECUTE")
      (read : ScriptRun.ofExecute keyspace arguments = .ok run) :
      Commanded keyspace arguments none (.single (.script run))
  | scriptRun {run : ScriptRun} (named : Command.name arguments = "AI.SCRIPTRUN")
      (read : ScriptRun.ofRun keyspace arguments = .ok run) :
      Commanded keyspace arguments none (.single (.script run))
  | flavored {flavor : DagFlavor} {dag : Dag} (named : Command.name arguments = flavor.name)
      (read : Dag.ofArguments flavor keyspace arguments = .ok dag) :
      Commanded keyspace arguments (some flavor) dag

namespace Dag.Commanded

variable {keyspace : Keyspace} {arguments : List Bytes} {origin : Option DagFlavor} {dag : Dag}

theorem begins {engine : Engine}
    (commanded : Dag.Commanded engine.keyspace arguments origin dag) :
    engine.begin arguments = engine.start dag := by
  cases commanded with
  | modelExecute named read => simp only [Engine.begin, named, read, Except.map, Engine.startParsed]
  | modelRun named read => simp only [Engine.begin, named, read, Except.map, Engine.startParsed]
  | scriptExecute named read =>
      simp only [Engine.begin, named, read, Except.map, Engine.startParsed]
  | scriptRun named read => simp only [Engine.begin, named, read, Except.map, Engine.startParsed]
  | @flavored flavor _ named read =>
      have known : DagFlavor.ofName? flavor.name = some flavor := by cases flavor <;> decide
      have begun : engine.begin arguments =
          engine.startParsed (Dag.ofArguments flavor engine.keyspace arguments) := by
        unfold Engine.begin
        split
        all_goals
          rename_i other
          rw [named] at other
        iterate 18 exact absurd other (by cases flavor <;> decide)
        simp only [named, known]
      simp only [begun, read, Engine.startParsed]

theorem distinct (commanded : Dag.Commanded keyspace arguments origin dag) :
    dag.persist.Nodup := by
  cases commanded with
  | flavored _ read => exact (read_of_arguments read).distinct
  | _ => exact nodup_firstOccurrences _

theorem singleOp_eq (commanded : Dag.Commanded keyspace arguments origin dag) :
    dag.singleOp = origin.isNone := by
  cases commanded with
  | flavored _ read => exact (read_of_arguments read).several
  | _ => rfl

theorem held (commanded : Dag.Commanded keyspace arguments origin dag) :
    ∀ op ∈ dag.ops, op.Held keyspace := by
  cases commanded with
  | modelExecute _ read =>
      intro op member
      rw [List.mem_singleton.mp member]
      exact ModelRun.fits_of_execute read
  | modelRun _ read =>
      intro op member
      rw [List.mem_singleton.mp member]
      exact ModelRun.fits_of_run read
  | scriptExecute _ read =>
      intro op member
      rw [List.mem_singleton.mp member]
      exact ScriptRun.held_of_execute read
  | scriptRun _ read =>
      intro op member
      rw [List.mem_singleton.mp member]
      exact ScriptRun.held_of_run read
  | flavored _ read => exact (read_of_arguments read).held

theorem persist_of_readOnly {flavor : DagFlavor}
    (commanded : Dag.Commanded keyspace arguments (some flavor) dag)
    (readOnly : flavor.isReadOnly = true) : dag.persist = [] := by
  cases commanded with
  | flavored _ read => exact (read_of_arguments read).readOnly readOnly

end Dag.Commanded

/-! ### Slots -/

namespace Slot

def crosses (keys : List String) : Bool :=
  keys.any fun key => keys.any fun other => ofKey key != ofKey other

theorem crosses_iff {key : String} {keys : List String} :
    crosses (key :: keys) = true ↔ ∃ other ∈ keys, ofKey other ≠ ofKey key := by
  unfold crosses
  rw [List.any_eq_true]
  constructor
  · rintro ⟨first, inFirst, apart⟩
    obtain ⟨second, inSecond, differ⟩ := List.any_eq_true.mp apart
    rw [bne_iff_ne] at differ
    by_cases same : ofKey first = ofKey key
    · rcases List.mem_cons.mp inSecond with head | inRest
      · exact absurd (same.trans (congrArg ofKey head.symm)) differ
      · exact ⟨second, inRest, fun equal => differ (same.trans equal.symm)⟩
    · rcases List.mem_cons.mp inFirst with head | inRest
      · exact absurd (congrArg ofKey head) same
      · exact ⟨first, inRest, same⟩
  · rintro ⟨other, inRest, apart⟩
    refine ⟨other, List.mem_cons_of_mem _ inRest, List.any_eq_true.mpr ⟨key, ?_, ?_⟩⟩
    · exact List.mem_cons_self ..
    · exact bne_iff_ne.mpr apart

theorem crosses_congr {keys others : List String} (same : ∀ key, key ∈ keys ↔ key ∈ others) :
    crosses keys = crosses others := by
  rw [Bool.eq_iff_iff]
  simp only [crosses, List.any_eq_true, same]

theorem common_of_crosses {keys : List String} (apart : crosses keys = true) :
    common keys = .error .crossSlot := by
  cases keys with
  | nil => cases apart
  | cons key rest =>
      obtain ⟨other, member, differ⟩ := crosses_iff.mp apart
      have mixed : ¬ (rest.all fun other => ofKey other == ofKey key) = true := by
        intro uniform
        exact differ (eq_of_beq (List.all_eq_true.mp uniform other member))
      rw [common, if_neg mixed]

theorem common_of_not_crosses {keys : List String} (shared : crosses keys = false) :
    ∃ slot, common keys = .ok slot := by
  cases keys with
  | nil => exact ⟨none, rfl⟩
  | cons key rest =>
      have uniform : (rest.all fun other => ofKey other == ofKey key) = true := by
        refine List.all_eq_true.mpr fun other member => beq_iff_eq.mpr ?_
        by_contra differ
        rw [crosses_iff.mpr ⟨other, member, differ⟩] at shared
        cases shared
      exact ⟨some (ofKey key), by rw [common, if_pos uniform]⟩

end Slot

/-! ### Loading -/

def Outcome.cause? {α : Type} : Outcome α → Option Error
  | .ok _ => none
  | .error cause => some cause

section Loading

variable {keyspace : Keyspace} {context loaded : Context} {names : List String}

theorem cause?_loadContext (keyspace : Keyspace) (context : Context) (names : List String) :
    (loadContext keyspace context names).cause? =
      names.findSome? fun name => (keyspace.getTensor name).cause? := by
  induction names generalizing context with
  | nil => rfl
  | cons name rest ih =>
      rw [loadContext, List.findSome?_cons]
      cases keyspace.getTensor name with
      | error cause => rfl
      | ok tensor => exact ih _

theorem get?_of_loadContext (done : loadContext keyspace context names = .ok loaded)
    (name : String) :
    loaded.get? name =
      if name ∈ names then (keyspace.getTensor name).toOption else context.get? name := by
  induction names generalizing context with
  | nil =>
      cases done
      rw [if_neg List.not_mem_nil]
  | cons first rest ih =>
      rw [loadContext] at done
      split at done
      · cases done
      · rename_i tensor held
        rw [ih done, Context.get?_insert]
        by_cases inRest : name ∈ rest
        · rw [if_pos inRest, if_pos (List.mem_cons_of_mem _ inRest)]
        · rw [if_neg inRest]
          by_cases same : name = first
          · rw [if_pos same, if_pos (same ▸ List.mem_cons_self ..), same, held]
            rfl
          · have absent : name ∉ first :: rest := by
              rw [List.mem_cons, not_or]
              exact ⟨same, inRest⟩
            rw [if_neg same, if_neg absent]

theorem isSome_of_loadContext (done : loadContext keyspace context names = .ok loaded)
    {name : String} (member : name ∈ names) : (loaded.get? name).isSome = true := by
  induction names generalizing context with
  | nil => cases member
  | cons first rest ih =>
      have whole := done
      rw [loadContext] at done
      split at done
      · cases done
      · rename_i tensor held
        rcases List.mem_cons.mp member with same | inRest
        · rw [get?_of_loadContext whole, if_pos member, same, held]
          rfl
        · exact ih done inRest

theorem isSome_loaded_iff (done : loadContext keyspace .empty names = .ok loaded) {name : String} :
    (loaded.get? name).isSome = true ↔ name ∈ names := by
  constructor
  · intro bound
    by_contra absent
    rw [get?_of_loadContext done, if_neg absent] at bound
    cases bound
  · exact isSome_of_loadContext done

theorem getTensor_of_loaded (done : loadContext keyspace .empty names = .ok loaded) {name : String}
    {tensor : Tensor} (bound : loaded.get? name = some tensor) :
    keyspace.getTensor name = .ok tensor := by
  rw [get?_of_loadContext done] at bound
  split at bound
  · cases held : keyspace.getTensor name with
    | ok other =>
        rw [held] at bound
        exact congrArg Except.ok (Option.some.inj bound)
    | error cause =>
        rw [held] at bound
        cases bound
  · cases bound

theorem loadContext_congr {other : Keyspace} (context : Context)
    (same : ∀ name ∈ names, keyspace.getTensor name = other.getTensor name) :
    loadContext keyspace context names = loadContext other context names := by
  induction names generalizing context with
  | nil => rfl
  | cons first rest ih =>
      have others := fun bound =>
        ih bound fun name member => same name (List.mem_cons_of_mem _ member)
      rw [loadContext, loadContext, same first (List.mem_cons_self ..)]
      cases other.getTensor first with
      | error cause => rfl
      | ok tensor => exact others _

end Loading

/-! ### The start -/

namespace Engine

variable {engine : Engine} {dag : Dag}

/-- Why a graph does not run at all. -/
def refusal? (engine : Engine) (dag : Dag) : Option Error :=
  if engine.clusterMode && Slot.crosses dag.keys then some .crossSlot
  else dag.load.findSome? fun name => (engine.keyspace.getTensor name).cause?

def deadlineOf (engine : Engine) (dag : Dag) : Option Nat :=
  dag.timeout.map fun timeout => engine.dispatcher.now + timeout

theorem slots_of_accepted (shared : (engine.clusterMode && Slot.crosses dag.keys) = false) :
    ∃ slot, (if engine.clusterMode then Slot.common dag.keys else .ok none) = .ok slot := by
  cases clustered : engine.clusterMode with
  | false => exact ⟨none, rfl⟩
  | true =>
      rw [clustered, Bool.true_and] at shared
      exact Slot.common_of_not_crosses shared

theorem start_of_refusal {cause : Error} (refused : engine.refusal? dag = some cause) :
    engine.start dag = (engine, .finished (.error cause)) := by
  unfold refusal? at refused
  split at refused
  · rename_i crossing
    cases refused
    obtain ⟨clustered, apart⟩ := Bool.and_eq_true_iff.mp crossing
    simp only [start, clustered, if_true, Slot.common_of_crosses apart]
  · rename_i shared
    obtain ⟨slot, agreed⟩ := slots_of_accepted (Bool.eq_false_iff.mpr shared)
    rw [← cause?_loadContext engine.keyspace .empty] at refused
    cases loading : loadContext engine.keyspace .empty dag.load with
    | ok context =>
        rw [loading] at refused
        cases refused
    | error fault =>
        rw [loading] at refused
        cases refused
        simp only [start, agreed, loading]

theorem start_of_accepted (accepted : engine.refusal? dag = none) :
    ∃ loaded, loadContext engine.keyspace .empty dag.load = .ok loaded ∧
      engine.start dag = engine.runOps dag (engine.deadlineOf dag) loaded [] dag.ops := by
  unfold refusal? at accepted
  split at accepted
  · cases accepted
  · rename_i shared
    obtain ⟨slot, agreed⟩ := slots_of_accepted (Bool.eq_false_iff.mpr shared)
    rw [← cause?_loadContext engine.keyspace .empty] at accepted
    cases loading : loadContext engine.keyspace .empty dag.load with
    | error cause =>
        rw [loading] at accepted
        cases accepted
    | ok loaded =>
        refine ⟨loaded, rfl, ?_⟩
        simp only [start, agreed, loading, deadlineOf]

end Engine

end InferenceStore
